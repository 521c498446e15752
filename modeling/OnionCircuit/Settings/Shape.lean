import OnionCircuit.Json.Basic

/-! How values of a type are kept in JSON. A section is written as an object of its
settings and read from an object or an array; what is missing keeps its default, and
keys that no setting has are passed over. -/

namespace OnionCircuit

structure Shape (α : Type) where
  write : α → Json
  read? : Json → Option α

/-- One value in a section of settings. -/
structure Setting (σ : Type) where
  key : String
  write : σ → Json
  /-- The section with the value that is read. -/
  read? : Json → σ → Option σ

namespace Shape

def integer (toInt : α → Int) (ofInt : Int → α) (lowest highest : Int) : Shape α where
  write value := .number (.ofInt (toInt value))
  read? json :=
    match json with
    | .number numeral => (numeral.int?.filter fun number => lowest ≤ number && number ≤ highest).map ofInt
    | _ => none

def word : Shape UInt64 := integer (fun value => value.toNat) (fun number => UInt64.ofNat number.toNat) 0 18446744073709551615

def signed : Shape Int64 := integer Int64.toInt Int64.ofInt (-9223372036854775808) 9223372036854775807

def bool : Shape Bool where
  write := .bool
  read? json :=
    match json with
    | .bool value => some value
    | _ => none

/-- A text, or null for none. -/
def text : Shape (Option String) where
  write value := (value.map fun text => Json.text (TextUnit.ofChars text.toList)).getD .null
  read? json :=
    match json with
    | .null => some none
    | .text units => (TextUnit.chars? units).map fun chars => some (String.ofList chars)
    | _ => none

def setting (shape : Shape α) (key : String) (get : σ → α) (set : σ → α → σ) : Setting σ where
  key := key
  write section_ := shape.write (get section_)
  read? json section_ := (shape.read? json).map (set section_)

/-- Reads the next member into a section, unless its key was seen before. -/
def readMember? (settings : List (Setting σ)) (state : σ × List String) (member : List TextUnit × Json) :
    Option (σ × List String) := do
  let key := String.ofList (← TextUnit.chars? member.1)
  match settings.find? fun setting => setting.key = key with
  | none => return state
  | some setting => if state.2.contains key then none else return (← setting.read? member.2 state.1, key :: state.2)

def readItem? (state : σ) (item : Setting σ × Json) : Option σ := item.1.read? item.2 state

/-- An array holds the first of the settings in their order. -/
def ofSettings (settings : List (Setting σ)) (default : σ) : Shape σ where
  write state := .object (settings.map fun setting => (TextUnit.ofChars setting.key.toList, setting.write state))
  read? json :=
    match json with
    | .object members => (members.foldlM (readMember? settings) (default, [])).map (·.1)
    | .array items => if settings.length < items.length then none else (settings.zip items).foldlM readItem? default
    | _ => none

end Shape
end OnionCircuit
