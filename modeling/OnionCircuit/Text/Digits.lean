import OnionCircuit.Bytes.Hex

/-! Numbers as digits in a base up to sixteen, without a sign. A reader takes the
longest run of digits in front and returns what follows it. -/

namespace OnionCircuit.Digits

/-- The digits of a number, most significant first, without leading zeros. -/
def text (base number : Nat) : List Char :=
  if number < base ∨ base < 2 then [Hex.digit number]
  else text base (number / base) ++ [Hex.digit (number % base)]
termination_by number
decreasing_by
  next large => exact Nat.div_lt_self (by omega) (by omega)

def decimal (number : Nat) : List Char := text 10 number

def signed (number : Int) : List Char :=
  if number < 0 then '-' :: decimal number.natAbs else decimal number.natAbs

def value? (base : Nat) (char : Char) : Option Nat := (Hex.value? char).filter (· < base)

/-- The values of the digits in front, and the rest. -/
def split (base : Nat) : List Char → List Nat × List Char
  | [] => ([], [])
  | char :: rest =>
    match value? base char with
    | some value => let (values, after) := split base rest; (value :: values, after)
    | none => ([], char :: rest)

def number (base : Nat) (values : List Nat) : Nat := values.foldl (fun sum value => sum * base + value) 0

/-- How many digits a field may have, whether they may start with a zero, and what they may amount to. -/
structure Field where
  base : Nat
  longest : Option Nat
  leadingZero : Bool
  limit : Nat

def Field.read (field : Field) (chars : List Char) : Option (Nat × List Char) :=
  let (values, rest) := split field.base chars
  let length := values.length
  if length = 0 ∨ field.longest.any (· < length) then none
  else if values.head? = some 0 ∧ 1 < length ∧ field.leadingZero = false then none
  else if field.limit < number field.base values then none
  else some (number field.base values, rest)

end OnionCircuit.Digits
