import OnionCircuit.Bytes.Basic

/-! Bytes and numbers in hexadecimal, written with lower case digits. -/

namespace OnionCircuit.Hex

def digit (value : Nat) : Char :=
  if value < 10 then Char.ofNat (48 + value) else Char.ofNat (87 + value)

/-- Both cases of a letter are read. -/
def value? (char : Char) : Option Nat :=
  if '0' ≤ char ∧ char ≤ '9' then some (char.toNat - 48)
  else if 'a' ≤ char ∧ char ≤ 'f' then some (char.toNat - 87)
  else if 'A' ≤ char ∧ char ≤ 'F' then some (char.toNat - 55)
  else none

def byte (value : UInt8) : List Char := [digit (value.toNat / 16), digit (value.toNat % 16)]

def text (bytes : Bytes) : List Char := bytes.flatMap byte

/-- Reads pairs of digits; an odd digit or another character is refused. -/
def bytes? : List Char → Option Bytes
  | [] => some []
  | high :: low :: rest => do
    let front ← value? high
    let back ← value? low
    return (front * 16 + back).toUInt8 :: (← bytes? rest)
  | [_] => none

end OnionCircuit.Hex
