import OnionCircuit.Text.Digits

/-! JSON values. A number keeps its fraction and exponent as they are written; a string
keeps the halves of surrogate pairs, which only escapes can write. -/

namespace OnionCircuit

inductive TextUnit
  | char (letter : Char)
  | half (code : UInt16)
deriving DecidableEq

structure Numeral where
  negative : Bool
  whole : Nat
  /-- The fraction and the exponent. -/
  tail : List Char
deriving DecidableEq

inductive Json
  | null
  | bool (value : Bool)
  | number (numeral : Numeral)
  | text (units : List TextUnit)
  | array (items : List Json)
  | object (members : List (List TextUnit × Json))

namespace TextUnit

def isHigh (code : UInt16) : Bool := 0xD800 ≤ code && code < 0xDC00

def isLow (code : UInt16) : Bool := 0xDC00 ≤ code && code < 0xE000

/-- What an escape with four digits stands for. -/
def ofCode (code : UInt16) : TextUnit :=
  if isHigh code || isLow code then .half code else .char (Char.ofNat code.toNat)

def pair (high low : UInt16) : Char := Char.ofNat (0x10000 + (high.toNat - 0xD800) * 0x400 + (low.toNat - 0xDC00))

/-- The characters of a string in which every half has its partner. -/
def chars? : List TextUnit → Option (List Char)
  | [] => some []
  | .char letter :: rest => (chars? rest).map (letter :: ·)
  | .half high :: .half low :: rest =>
    if isHigh high && isLow low then (chars? rest).map (pair high low :: ·) else none
  | .half _ :: _ => none

def ofChars (chars : List Char) : List TextUnit := chars.map TextUnit.char

theorem chars?_ofChars (chars : List Char) : chars? (ofChars chars) = some chars := by
  induction chars with
  | nil => rfl
  | cons letter rest hypothesis => simp_all [ofChars, chars?]

end TextUnit

namespace Numeral

def ofInt (number : Int) : Numeral := ⟨decide (number < 0), number.natAbs, []⟩

/-- An integer has neither a fraction nor an exponent, and zero has no sign. -/
def int? (numeral : Numeral) : Option Int :=
  if numeral.tail ≠ [] ∨ (numeral.negative ∧ numeral.whole = 0) then none
  else if numeral.negative then some (-numeral.whole) else some numeral.whole

theorem int?_ofInt (number : Int) : (ofInt number).int? = some number := by
  simp only [int?, ofInt, ne_eq, not_true_eq_false, false_or, decide_eq_true_eq]
  split
  · omega
  · split <;> exact congrArg some (by omega)

end Numeral
end OnionCircuit
