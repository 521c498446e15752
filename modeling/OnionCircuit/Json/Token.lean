import OnionCircuit.Json.Basic

/-! The tokens of a JSON text, read without looking at how they nest. -/

namespace OnionCircuit.Json

inductive Token
  | openObject
  | closeObject
  | openArray
  | closeArray
  | comma
  | colon
  | null
  | bool (value : Bool)
  | number (numeral : Numeral)
  | text (units : List TextUnit)
deriving DecidableEq

namespace Token

def isBlank (char : Char) : Bool := [' ', '\n', '\t', '\r'].contains char

/-- Characters that an escape of two characters stands for, and its second character. -/
def shortEscapes : List (Char × Char) :=
  [('\x22', '\x22'), ('\\', '\\'), ('\x08', 'b'), ('\x0c', 'f'), ('\n', 'n'), ('\r', 'r'), ('\t', 't')]

/-- A slash may also be escaped. -/
def unescape? (char : Char) : Option Char :=
  if char = '/' then some '/' else (shortEscapes.find? (·.2 = char)).map (·.1)

def code? (digits : List Char) : Option UInt16 :=
  (digits.mapM Hex.value?).map fun values => UInt16.ofNat (Digits.number 16 values)

/-- The rest of a string up to its closing quote, after the units that were read. -/
def readText (done : List TextUnit) : List Char → Option (List TextUnit × List Char)
  | [] => none
  | '\x22' :: rest => some (done.reverse, rest)
  | '\\' :: 'u' :: a :: b :: c :: d :: rest =>
    match code? [a, b, c, d] with
    | some code => readText (.ofCode code :: done) rest
    | none => none
  | '\\' :: char :: rest =>
    match unescape? char with
    | some char => readText (.char char :: done) rest
    | none => none
  | char :: rest => if char < ' ' then none else readText (.char char :: done) rest

/-- At least one digit. -/
def readDigits? (chars : List Char) : Option (List Char × List Char) :=
  if (chars.takeWhile Char.isDigit).isEmpty then none
  else some (chars.takeWhile Char.isDigit, chars.dropWhile Char.isDigit)

/-- The whole part has no zero in front. -/
def readWhole? (chars : List Char) : Option (Nat × List Char) := do
  let (digits, rest) ← readDigits? chars
  if digits.head? = some '0' ∧ digits ≠ ['0'] then none
  else return (Digits.number 10 (digits.filterMap Hex.value?), rest)

def readFraction? : List Char → Option (List Char × List Char)
  | '.' :: rest => do
    let (digits, rest) ← readDigits? rest
    return ('.' :: digits, rest)
  | chars => some ([], chars)

def readExponent? : List Char → Option (List Char × List Char)
  | [] => some ([], [])
  | mark :: rest =>
    if mark = 'e' ∨ mark = 'E' then do
      let sign := (rest.take 1).filter fun char => char = '+' || char = '-'
      let (digits, rest) ← readDigits? (rest.drop sign.length)
      return (mark :: sign ++ digits, rest)
    else some ([], mark :: rest)

def readNumber? (negative : Bool) (chars : List Char) : Option (Token × List Char) := do
  let (whole, rest) ← readWhole? chars
  let (fraction, rest) ← readFraction? rest
  let (exponent, rest) ← readExponent? rest
  return (.number ⟨negative, whole, fraction ++ exponent⟩, rest)

/-- The token in front. -/
def read? : List Char → Option (Token × List Char)
  | '\x7b' :: rest => some (.openObject, rest)
  | '\x7d' :: rest => some (.closeObject, rest)
  | '[' :: rest => some (.openArray, rest)
  | ']' :: rest => some (.closeArray, rest)
  | ',' :: rest => some (.comma, rest)
  | ':' :: rest => some (.colon, rest)
  | 'n' :: 'u' :: 'l' :: 'l' :: rest => some (.null, rest)
  | 't' :: 'r' :: 'u' :: 'e' :: rest => some (.bool true, rest)
  | 'f' :: 'a' :: 'l' :: 's' :: 'e' :: rest => some (.bool false, rest)
  | '\x22' :: rest => (readText [] rest).map fun (units, rest) => (.text units, rest)
  | '-' :: rest => readNumber? true rest
  | chars => readNumber? false chars

/-- All tokens, after those that were read; there are no more than the fuel. -/
def scan : Nat → List Token → List Char → Option (List Token)
  | _, done, [] => some done.reverse
  | 0, _, _ => none
  | fuel + 1, done, char :: rest =>
    if isBlank char then scan fuel done rest
    else match read? (char :: rest) with
      | some (token, rest) => scan fuel (token :: done) rest
      | none => none

/-- A token takes at least one character, so there are no more tokens than characters. -/
def all? (chars : List Char) : Option (List Token) := scan chars.length [] chars

end Token
end OnionCircuit.Json
