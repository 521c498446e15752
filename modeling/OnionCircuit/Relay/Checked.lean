/-! Sums and differences of signed words of 64 bits that must not leave their range. -/

namespace OnionCircuit

inductive Fault
  | addition
  | subtraction
deriving DecidableEq

def Fault.message : Fault → String
  | .addition => "attempt to add with overflow"
  | .subtraction => "attempt to subtract with overflow"

namespace Checked

def InRange (value : Int) : Prop := -9223372036854775808 ≤ value ∧ value ≤ 9223372036854775807

instance (value : Int) : Decidable (InRange value) := inferInstanceAs (Decidable (_ ∧ _))

def add (left right : Int64) : Except Fault Int64 :=
  if InRange (left.toInt + right.toInt) then .ok (left + right) else .error .addition

def sub (left right : Int64) : Except Fault Int64 :=
  if InRange (left.toInt - right.toInt) then .ok (left - right) else .error .subtraction

theorem toInt_of_add {left right sum : Int64} (added : add left right = .ok sum) :
    sum.toInt = left.toInt + right.toInt := by
  simp only [add] at added
  split at added
  next fits =>
    obtain ⟨low, high⟩ := fits
    cases added
    rw [Int64.toInt_add, Int.bmod_eq_of_le (by omega) (by omega)]
  next => cases added

theorem toInt_of_sub {left right difference : Int64} (subtracted : sub left right = .ok difference) :
    difference.toInt = left.toInt - right.toInt := by
  simp only [sub] at subtracted
  split at subtracted
  next fits =>
    obtain ⟨low, high⟩ := fits
    cases subtracted
    rw [Int64.toInt_sub, Int.bmod_eq_of_le (by omega) (by omega)]
  next => cases subtracted

end Checked

/-- Times are in microseconds, on a clock that starts at one second. -/
abbrev Micros := Int64

namespace Micros

theorem max_cases (one two : Micros) : max one two = one ∧ two ≤ one ∨ max one two = two ∧ one ≤ two := by
  change (if one ≤ two then two else one) = one ∧ _ ∨ (if one ≤ two then two else one) = two ∧ _
  split
  next first => exact Or.inr ⟨rfl, first⟩
  next last => exact Or.inl ⟨rfl, (Int64.le_total one two).resolve_left last⟩

theorem le_max_left (one two : Micros) : one ≤ max one two := by
  obtain ⟨same, _⟩ | ⟨same, less⟩ := max_cases one two
  · exact Int64.le_of_eq same.symm
  · rwa [same]

theorem le_max_right (one two : Micros) : two ≤ max one two := by
  obtain ⟨same, less⟩ | ⟨same, _⟩ := max_cases one two
  · rwa [same]
  · exact Int64.le_of_eq same.symm

theorem lt_max_iff {time one two : Micros} : time < max one two ↔ time < one ∨ time < two := by
  obtain ⟨same, less⟩ | ⟨same, less⟩ := max_cases one two
  · rw [same]
    exact ⟨Or.inl, fun either => either.elim id fun early => Int64.lt_of_lt_of_le early less⟩
  · rw [same]
    exact ⟨Or.inr, fun either => either.elim (fun early => Int64.lt_of_lt_of_le early less) id⟩

end Micros

namespace Clock

def second : Micros := 1000000

/-- What the clock shows: nothing before the first second. -/
def reading (time : Micros) : Micros := if time < second then second else time

end Clock
end OnionCircuit
