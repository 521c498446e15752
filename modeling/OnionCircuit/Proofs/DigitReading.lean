import Mathlib.Algebra.Group.Nat.Defs
import OnionCircuit.Text.Digits

/-! Numbers that are written in digits and read back. A reader stops where the digits stop, so it gets the
number back if what follows does not look like one more digit. -/

namespace OnionCircuit

theorem Hex.value?_digit : ∀ value, value < 16 → Hex.value? (Hex.digit value) = some value := by decide

namespace Digits

/-- The values of the digits of a number, the most significant first. -/
def values (base number : Nat) : List Nat :=
  if number < base ∨ base < 2 then [number] else values base (number / base) ++ [number % base]
termination_by number
decreasing_by
  next large => exact Nat.div_lt_self (by omega) (by omega)

theorem values_of_lt {base value : Nat} (small : value < base) : values base value = [value] := by
  rw [values, if_pos (Or.inl small)]

theorem values_of_le {base value : Nat} (digits : 2 ≤ base) (large : base ≤ value) :
    values base value = values base (value / base) ++ [value % base] := by
  rw [values, if_neg (by omega)]

theorem text_eq (base value : Nat) : text base value = (values base value).map Hex.digit := by
  induction value using values.induct base with
  | case1 value small => rw [text, values, if_pos small, if_pos small, List.map_singleton]
  | case2 value large ih =>
    rw [text, values, if_neg large, if_neg large, ih, List.map_append, List.map_singleton]

variable {base : Nat}

theorem values_ne_nil (value : Nat) : values base value ≠ [] := by
  rw [values]
  split
  · exact List.cons_ne_nil _ _
  · exact List.append_ne_nil_of_right_ne_nil _ (List.cons_ne_nil _ _)

theorem values_lt (digits : 2 ≤ base) (value : Nat) : ∀ digit ∈ values base value, digit < base := by
  induction value using values.induct base with
  | case1 value small =>
    rw [values, if_pos small]
    simp only [List.mem_singleton, forall_eq]
    omega
  | case2 value large ih =>
    rw [values, if_neg large]
    intro digit inside
    rcases List.mem_append.mp inside with early | last
    · exact ih digit early
    · rw [List.mem_singleton.mp last]
      exact Nat.mod_lt _ (by omega)

theorem number_values (base value : Nat) : number base (values base value) = value := by
  induction value using values.induct base with
  | case1 value small => rw [values, if_pos small, number, List.foldl_cons, List.foldl_nil, Nat.zero_mul, Nat.zero_add]
  | case2 value large ih =>
    rw [number] at ih
    rw [values, if_neg large, number, List.foldl_append, ih, List.foldl_cons, List.foldl_nil]
    exact Nat.div_add_mod' value base

/-- So many digits are enough. -/
theorem length_values_le (digits : 2 ≤ base) {value count : Nat} (present : 0 < count) (fits : value < base ^ count) :
    (values base value).length ≤ count := by
  induction count generalizing value with
  | zero => contradiction
  | succ count ih =>
    by_cases small : value < base
    · rw [values_of_lt small, List.length_singleton]
      omega
    · have quotient : value / base < base ^ count := by
        apply Nat.div_lt_of_lt_mul
        rwa [Nat.mul_comm, ← Nat.pow_succ]
      have more : 0 < count := by
        apply Nat.pos_of_ne_zero
        rintro rfl
        rw [Nat.zero_add, Nat.pow_one] at fits
        contradiction
      have shorter := ih more quotient
      rw [values_of_le digits (Nat.not_lt.mp small), List.length_append, List.length_singleton]
      omega

/-- A number of several digits does not start with a zero. -/
theorem head?_values (digits : 2 ≤ base) (value : Nat) (several : 1 < (values base value).length) :
    (values base value).head? ≠ some 0 := by
  induction value using values.induct base with
  | case1 value small =>
    rw [values, if_pos small] at several
    contradiction
  | case2 value large ih =>
    rw [values, if_neg large, List.head?_append, Option.or_of_isSome (List.isSome_head?.mpr (values_ne_nil _))]
    by_cases more : 1 < (values base (value / base)).length
    · exact ih more
    · have one : value / base < base := by
        apply Nat.lt_of_not_le
        intro again
        apply more
        rw [values_of_le digits again, List.length_append, List.length_singleton]
        have front := List.length_pos_iff.mpr (@values_ne_nil base (value / base / base))
        omega
      have positive : 0 < value / base := Nat.div_pos (by omega) (by omega)
      rw [values_of_lt one, List.head?_cons, ne_eq, Option.some.injEq]
      omega

/-- What follows a number does not look like one more of its digits. -/
def Stops (base : Nat) (rest : List Char) : Prop := ∀ char ∈ rest.head?, value? base char = none

theorem stops_nil : Stops base [] := by
  intro char inside
  cases inside

theorem stops_cons {char : Char} {rest : List Char} (other : value? base char = none) : Stops base (char :: rest) := by
  intro first inside
  cases inside
  exact other

theorem value?_digit {digit : Nat} (small : digit < base) (hexadecimal : base ≤ 16) :
    value? base (Hex.digit digit) = some digit := by
  rw [value?, Hex.value?_digit digit (by omega), Option.filter_some, if_pos (decide_eq_true small)]

theorem split_of_stops {rest : List Char} (stops : Stops base rest) : split base rest = ([], rest) := by
  cases rest with
  | nil => rfl
  | cons char rest => rw [split, stops char rfl]

theorem split_append {digits : List Nat} {rest : List Char} (hexadecimal : base ≤ 16)
    (small : ∀ digit ∈ digits, digit < base) (stops : Stops base rest) :
    split base (digits.map Hex.digit ++ rest) = (digits, rest) := by
  induction digits with
  | nil => exact split_of_stops stops
  | cons digit digits ih =>
    obtain ⟨first, others⟩ := List.forall_mem_cons.mp small
    rw [List.map_cons, List.cons_append, split, value?_digit first hexadecimal]
    simp only [ih others]

theorem split_text (digits : 2 ≤ base) (hexadecimal : base ≤ 16) (value : Nat) {rest : List Char}
    (stops : Stops base rest) : split base (text base value ++ rest) = (values base value, rest) := by
  rw [text_eq]
  exact split_append hexadecimal (values_lt digits value) stops

theorem text_eq_cons (digits : 2 ≤ base) (value : Nat) :
    ∃ digit rest, digit < base ∧ text base value = Hex.digit digit :: rest := by
  obtain ⟨digit, more, shape⟩ := List.exists_cons_of_ne_nil (@values_ne_nil base value)
  refine ⟨digit, more.map Hex.digit, values_lt digits value digit ?_, ?_⟩
  · rw [shape]
    exact List.mem_cons_self
  · rw [text_eq, shape, List.map_cons]

/-- Each digit has its value. -/
theorem filterMap_text (digits : 2 ≤ base) (hexadecimal : base ≤ 16) (value : Nat) :
    (text base value).filterMap Hex.value? = values base value := by
  have back (list : List Nat) (small : ∀ digit ∈ list, digit < base) :
      (list.map Hex.digit).filterMap Hex.value? = list := by
    induction list with
    | nil => rfl
    | cons digit list ih =>
      obtain ⟨first, others⟩ := List.forall_mem_cons.mp small
      rw [List.map_cons, List.filterMap_cons_some (Hex.value?_digit digit (by omega)), ih others]
  rw [text_eq, back _ (values_lt digits value)]

/-- A field reads a number that it has room for. -/
theorem Field.read_text {field : Field} (digits : 2 ≤ field.base) (hexadecimal : field.base ≤ 16) {value : Nat}
    (small : value ≤ field.limit) (room : ∀ longest ∈ field.longest, 0 < longest ∧ value < field.base ^ longest)
    {rest : List Char} (stops : Stops field.base rest) :
    field.read (text field.base value ++ rest) = some (value, rest) := by
  have present : (values field.base value).length ≠ 0 := Nat.ne_of_gt (List.length_pos_iff.mpr (values_ne_nil value))
  have short : field.longest.any (· < (values field.base value).length) = false := by
    rw [Bool.eq_false_iff, ne_eq, Option.any_eq_true]
    intro ⟨longest, bound, long⟩
    have enough := length_values_le digits (room longest bound).1 (room longest bound).2
    exact Nat.not_lt.mpr enough (of_decide_eq_true long)
  have unpadded : ¬ ((values field.base value).head? = some 0 ∧ 1 < (values field.base value).length ∧
      field.leadingZero = false) := fun padded => head?_values digits value padded.2.1 padded.1
  simp only [read, split_text digits hexadecimal value stops, number_values]
  rw [if_neg (by simp [present, short]), if_neg unpadded, if_neg (Nat.not_lt.mpr small)]

/-- A field reads nothing where there is no digit. -/
theorem Field.read_of_stops (field : Field) {rest : List Char} (stops : Stops field.base rest) :
    field.read rest = none := by
  simp only [read, split_of_stops stops, List.length_nil, true_or, if_true]

end Digits
end OnionCircuit
