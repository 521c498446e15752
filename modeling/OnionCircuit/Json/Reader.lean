import OnionCircuit.Json.Token

/-! Reading a JSON value token by token. Arrays and objects that are still open are kept
in a list, so that values may nest to any depth. -/

namespace OnionCircuit.Json

/-- An array or object that is still open: what it holds so far, the last first. -/
inductive Frame
  | array (items : List Json)
  /-- The key is that of the next member. -/
  | object (members : List (List TextUnit × Json)) (key : List TextUnit)

/-- What may follow, inside the open frames, the innermost first. -/
inductive Reading
  | awaitValue (frames : List Frame)
  /-- A value, or the end of an array without items. -/
  | awaitItem (frames : List Frame)
  /-- A key; the end of the object too if it has no members. -/
  | awaitKey (members : List (List TextUnit × Json)) (frames : List Frame)
  | awaitColon (members : List (List TextUnit × Json)) (key : List TextUnit) (frames : List Frame)
  | complete (json : Json) (frames : List Frame)

namespace Reading

def beginValue (frames : List Frame) : Token → Option Reading
  | .openObject => some (.awaitKey [] frames)
  | .openArray => some (.awaitItem frames)
  | .null => some (.complete .null frames)
  | .bool value => some (.complete (.bool value) frames)
  | .number numeral => some (.complete (.number numeral) frames)
  | .text units => some (.complete (.text units) frames)
  | _ => none

def next : Reading → Token → Option Reading
  | .awaitValue frames, token => beginValue frames token
  | .awaitItem frames, .closeArray => some (.complete (.array []) frames)
  | .awaitItem frames, token => beginValue (.array [] :: frames) token
  | .awaitKey members frames, .text key => some (.awaitColon members key frames)
  | .awaitKey [] frames, .closeObject => some (.complete (.object []) frames)
  | .awaitColon members key frames, .colon => some (.awaitValue (.object members key :: frames))
  | .complete json (.array items :: frames), .comma => some (.awaitValue (.array (json :: items) :: frames))
  | .complete json (.array items :: frames), .closeArray => some (.complete (.array (json :: items).reverse) frames)
  | .complete json (.object members key :: frames), .comma => some (.awaitKey ((key, json) :: members) frames)
  | .complete json (.object members key :: frames), .closeObject =>
    some (.complete (.object ((key, json) :: members).reverse) frames)
  | _, _ => none

/-- The value of a reading with nothing open. -/
def json? : Reading → Option Json
  | .complete json [] => some json
  | _ => none

end Reading

def ofTokens? (tokens : List Token) : Option Json := do (← tokens.foldlM Reading.next (.awaitValue [])).json?

def parse? (chars : List Char) : Option Json := do ofTokens? (← Token.all? chars)

end OnionCircuit.Json
