import OnionCircuit.Json.Token

/-! JSON values as text, one item or member a line. -/

namespace OnionCircuit.Json

/-- Quotes, backslashes and control characters are escaped. -/
def charText (char : Char) : List Char :=
  match Token.shortEscapes.find? (·.1 = char) with
  | some (_, letter) => ['\\', letter]
  | none => if char < ' ' then "\\u00".toList ++ Hex.byte char.toNat.toUInt8 else [char]

def unitText : TextUnit → List Char
  | .char char => charText char
  | .half code => "\\u".toList ++ Hex.byte (code >>> 8).toUInt8 ++ Hex.byte code.toUInt8

def quoted (units : List TextUnit) : List Char := '\x22' :: units.flatMap unitText ++ ['\x22']

def numeralText (numeral : Numeral) : List Char :=
  (if numeral.negative then ['-'] else []) ++ Digits.decimal numeral.whole ++ numeral.tail

def newLine (depth : Nat) : List Char := '\n' :: List.replicate (2 * depth) ' '

mutual

/-- Two blanks for every level, and nothing between the brackets of what is empty. -/
def pretty (depth : Nat) : Json → List Char
  | .null => "null".toList
  | .bool value => (if value then "true" else "false").toList
  | .number numeral => numeralText numeral
  | .text units => quoted units
  | .array [] => "[]".toList
  | .array (item :: items) =>
    '[' :: newLine (depth + 1) ++ pretty (depth + 1) item ++ prettyItems (depth + 1) items ++ newLine depth ++ [']']
  | .object [] => ['\x7b', '\x7d']
  | .object ((key, json) :: members) =>
    '\x7b' :: newLine (depth + 1) ++ quoted key ++ ": ".toList ++ pretty (depth + 1) json ++
      prettyMembers (depth + 1) members ++ newLine depth ++ ['\x7d']

def prettyItems (depth : Nat) : List Json → List Char
  | [] => []
  | item :: items => ',' :: newLine depth ++ pretty depth item ++ prettyItems depth items

def prettyMembers (depth : Nat) : List (List TextUnit × Json) → List Char
  | [] => []
  | (key, json) :: members =>
    ',' :: newLine depth ++ quoted key ++ ": ".toList ++ pretty depth json ++ prettyMembers depth members

end

end OnionCircuit.Json
