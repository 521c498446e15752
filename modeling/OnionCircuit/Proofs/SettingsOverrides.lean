import OnionCircuit.Proofs.JsonPrinting
import OnionCircuit.Proofs.SectionReading
import OnionCircuit.Proofs.StoredFiles
import OnionCircuit.Settings.File

/-! A settings file overrides the defaults field by field. Which files are taken, and what they give, is said here without
the reader: by the values that stand under the known keys of the file and of its two sections. -/

namespace OnionCircuit

namespace Json

def IsWord (json : Json) (value : UInt64) : Prop := json = .number (.ofInt value.toNat)

def IsSigned (json : Json) (value : Int64) : Prop := json = .number (.ofInt value.toInt)

def IsBool (json : Json) (value : Bool) : Prop := json = .bool value

inductive IsText : Json → Option String → Prop
  | null : IsText .null none
  | text {units : List TextUnit} {text : String} (chars : TextUnit.chars? units = some text.toList) :
    IsText (.text units) (some text)

/-- An integer in a range, without a fraction or an exponent. -/
def Between (lowest highest : Int) (json : Json) : Prop :=
  ∃ number, lowest ≤ number ∧ number ≤ highest ∧ json = .number (.ofInt number)

def Boolean (json : Json) : Prop := ∃ value, IsBool json value

def Text (json : Json) : Prop := ∃ text, IsText json text

/-- Under each of the keys stands at most one value, and one that it allows. Nothing is said of other keys, but that all
of them consist of characters. -/
def Admits (fields : List (String × (Json → Prop))) (members : List (List TextUnit × Json)) : Prop :=
  Keyed members ∧ ∀ field ∈ fields, (valuesOf field.1 members).length ≤ 1 ∧ ∀ json ∈ valuesOf field.1 members, field.2 json

end Json

open Json

def AgentSettings.fields : List (String × (Json → Prop)) :=
  [("max_exchanges", Between 0 18446744073709551615),
   ("default_relay_point", Between (-9223372036854775808) 9223372036854775807),
   ("max_relay_point", Between (-9223372036854775808) 9223372036854775807),
   ("relay_retention_mics", Between (-9223372036854775808) 9223372036854775807),
   ("restricted_interval_mics", Between (-9223372036854775808) 9223372036854775807),
   ("endpoint_retention_mics", Between (-9223372036854775808) 9223372036854775807),
   ("endpoint_cache_capacity", Between 0 18446744073709551615),
   ("clean_interval_ms", Between 0 18446744073709551615),
   ("send_queue_capacity", Between 0 18446744073709551615),
   ("relay_address", Text)]

def CircuitConfig.fields : List (String × (Json → Prop)) :=
  [("max_serial_relays", Between 0 18446744073709551615),
   ("close_delay_ms", Between 0 18446744073709551615),
   ("maintain_interval_ms", Between 0 18446744073709551615),
   ("allow_open_sesami", Boolean),
   ("allow_unknown_incoming", Boolean)]

def Settings.fields : List (String × (Json → Prop)) :=
  [("agent", fun json => ∃ members, json = .object members ∧ Admits AgentSettings.fields members),
   ("circuit", fun json => ∃ members, json = .object members ∧ Admits CircuitConfig.fields members)]

theorem Numeral.int?_eq_some {numeral : Numeral} {number : Int} :
    numeral.int? = some number ↔ numeral = .ofInt number := by
  constructor
  · intro int
    obtain ⟨negative, whole, tail⟩ := numeral
    rw [Numeral.int?] at int
    split at int
    · cases int
    next proper =>
      simp only [ne_eq, not_or, Decidable.not_not] at proper
      obtain ⟨rfl, signed⟩ := proper
      rw [Numeral.ofInt, Numeral.mk.injEq]
      cases negative with
      | true =>
        have positive : whole ≠ 0 := fun zero => signed ⟨rfl, zero⟩
        obtain rfl : -(whole : Int) = number := Option.some.inj int
        exact ⟨(decide_eq_true (by omega)).symm, by omega, rfl⟩
      | false =>
        obtain rfl : (whole : Int) = number := Option.some.inj int
        exact ⟨(decide_eq_false (by omega)).symm, by omega, rfl⟩
  · rintro rfl
    exact Numeral.int?_ofInt number

namespace Shape

section
variable {α : Type} {toInt : α → Int} {ofInt : Int → α} {lowest highest : Int}

theorem integer_read?_eq_some {json : Json} {value : α} : (integer toInt ofInt lowest highest).read? json = some value ↔
    ∃ number, lowest ≤ number ∧ number ≤ highest ∧ json = .number (.ofInt number) ∧ ofInt number = value := by
  cases json with
  | number numeral =>
    simp only [integer, Option.map_eq_some_iff, Option.filter_eq_some_iff, Bool.and_eq_true, decide_eq_true_eq,
      Json.number.injEq, Numeral.int?_eq_some]
    exact ⟨fun ⟨read, ⟨same, low, high⟩, value⟩ => ⟨read, low, high, same, value⟩,
      fun ⟨read, low, high, same, value⟩ => ⟨read, ⟨same, low, high⟩, value⟩⟩
  | _ => simp [integer]

/-- Where the numbers in the range are just those of the values. -/
theorem integer_read?_iff (bounded : ∀ value, lowest ≤ toInt value ∧ toInt value ≤ highest)
    (ofInt_toInt : ∀ value, ofInt (toInt value) = value)
    (toInt_ofInt : ∀ number, lowest ≤ number → number ≤ highest → toInt (ofInt number) = number) {json : Json}
    {value : α} : (integer toInt ofInt lowest highest).read? json = some value ↔ json = .number (.ofInt (toInt value)) := by
  rw [integer_read?_eq_some]
  constructor
  · rintro ⟨number, low, high, rfl, rfl⟩
    rw [toInt_ofInt number low high]
  · intro same
    exact ⟨toInt value, (bounded value).1, (bounded value).2, same, ofInt_toInt value⟩

theorem integer_readable {json : Json} :
    (integer toInt ofInt lowest highest).read? json ≠ none ↔ Between lowest highest json := by
  simp only [Option.ne_none_iff_exists', integer_read?_eq_some, Between]
  exact ⟨fun ⟨_, read, low, high, same, _⟩ => ⟨read, low, high, same⟩,
    fun ⟨read, low, high, same⟩ => ⟨ofInt read, read, low, high, same, rfl⟩⟩

end

theorem word_read?_eq_some {json : Json} {value : UInt64} : word.read? json = some value ↔ IsWord json value := by
  refine integer_read?_iff (fun value => ?_) (fun value => ?_) fun number low high => ?_
  · have small := value.toNat_lt
    exact ⟨Int.natCast_nonneg _, by omega⟩
  · rw [Int.toNat_natCast, UInt64.ofNat_toNat]
  · have small : number.toNat < UInt64.size := by
      rw [UInt64.size]
      omega
    rw [UInt64.toNat_ofNat_of_lt' small, Int.toNat_of_nonneg low]

theorem signed_read?_eq_some {json : Json} {value : Int64} : signed.read? json = some value ↔ IsSigned json value := by
  refine integer_read?_iff (fun value => ?_) (fun value => ?_) fun number low high => ?_
  · exact ⟨value.le_toInt, value.toInt_le⟩
  · exact Int64.ofInt_toInt value
  · exact Int64.toInt_ofInt_of_le low (by omega)

theorem bool_read?_eq_some {json : Json} {value : Bool} : bool.read? json = some value ↔ IsBool json value := by
  cases json <;> simp [bool, IsBool]

theorem text_read?_eq_some {json : Json} {value : Option String} : text.read? json = some value ↔ IsText json value := by
  constructor
  · intro read
    cases json with
    | null =>
      cases read
      exact .null
    | text units =>
      obtain ⟨chars, units, rfl⟩ := Option.map_eq_some_iff.mp read
      exact .text (units.trans (congrArg some String.toList_ofList.symm))
    | _ => cases read
  · rintro (_ | chars)
    · rfl
    next chars => simp only [Shape.text, chars, Option.map_some, String.ofList_toList]

theorem bool_readable {json : Json} : bool.read? json ≠ none ↔ Boolean json := by
  simp only [Option.ne_none_iff_exists', bool_read?_eq_some, Boolean]

theorem text_readable {json : Json} : text.read? json ≠ none ↔ Text json := by
  simp only [Option.ne_none_iff_exists', text_read?_eq_some, Text]

end Shape

/-! The two sections and the file. -/

/-- A key and what can be read there. -/
def Slot.field {σ : Type} (slot : Slot σ) : String × (Json → Prop) := (slot.key, fun json => slot.shape.read? json ≠ none)

theorem Slot.readable_iff {σ : Type} {slots : List (Slot σ)} (lawful : Lawful slots) (default : σ)
    {members : List (List TextUnit × Json)} :
    (Shape.ofSettings (slots.map setting) default).read? (.object members) ≠ none ↔ Admits (slots.map field) members := by
  rw [read?_object_ne_none lawful]
  simp only [Admits, List.forall_mem_map, field, Fits]

namespace AgentSettings

def slots : List (Slot AgentSettings) :=
  [⟨"max_exchanges", .word, (·.maxExchanges), fun all value => { all with maxExchanges := value }⟩,
   ⟨"default_relay_point", .signed, (·.defaultPoints), fun all value => { all with defaultPoints := value }⟩,
   ⟨"max_relay_point", .signed, (·.maxPoints), fun all value => { all with maxPoints := value }⟩,
   ⟨"relay_retention_mics", .signed, (·.relayRetention), fun all value => { all with relayRetention := value }⟩,
   ⟨"restricted_interval_mics", .signed, (·.restrictedInterval),
     fun all value => { all with restrictedInterval := value }⟩,
   ⟨"endpoint_retention_mics", .signed, (·.endpointRetention),
     fun all value => { all with endpointRetention := value }⟩,
   ⟨"endpoint_cache_capacity", .word, (·.cacheCapacity), fun all value => { all with cacheCapacity := value }⟩,
   ⟨"clean_interval_ms", .word, (·.cleanInterval), fun all value => { all with cleanInterval := value }⟩,
   ⟨"send_queue_capacity", .word, (·.queueCapacity), fun all value => { all with queueCapacity := value }⟩,
   ⟨"relay_address", .text, (·.relayAddress), fun all value => { all with relayAddress := value }⟩]

theorem shape_eq : shape = .ofSettings (slots.map Slot.setting) {} := rfl

theorem lawful_slots : Slot.Lawful slots where
  distinct := by decide
  get_set := by simp [slots]
  get_set_other := by simp [slots]

theorem fields_eq : fields = slots.map Slot.field := by
  simp only [fields, slots, List.map_cons, List.map_nil, Slot.field, Shape.word, Shape.signed, Shape.integer_readable,
    Shape.text_readable]

theorem readable_iff {members : List (List TextUnit × Json)} :
    shape.read? (.object members) ≠ none ↔ Admits fields members := by
  rw [shape_eq, fields_eq, Slot.readable_iff lawful_slots {}]

end AgentSettings

namespace CircuitConfig

def slots : List (Slot CircuitConfig) :=
  [⟨"max_serial_relays", .word, (·.maxRelays), fun all value => { all with maxRelays := value }⟩,
   ⟨"close_delay_ms", .word, (·.closeDelay), fun all value => { all with closeDelay := value }⟩,
   ⟨"maintain_interval_ms", .word, (·.maintainInterval), fun all value => { all with maintainInterval := value }⟩,
   ⟨"allow_open_sesami", .bool, (·.allowOpenSesami), fun all value => { all with allowOpenSesami := value }⟩,
   ⟨"allow_unknown_incoming", .bool, (·.allowUnknown), fun all value => { all with allowUnknown := value }⟩]

theorem shape_eq : shape = .ofSettings (slots.map Slot.setting) {} := rfl

theorem lawful_slots : Slot.Lawful slots where
  distinct := by decide
  get_set := by simp [slots]
  get_set_other := by simp [slots]

theorem fields_eq : fields = slots.map Slot.field := by
  simp only [fields, slots, List.map_cons, List.map_nil, Slot.field, Shape.word, Shape.integer_readable,
    Shape.bool_readable]

theorem readable_iff {members : List (List TextUnit × Json)} :
    shape.read? (.object members) ≠ none ↔ Admits fields members := by
  rw [shape_eq, fields_eq, Slot.readable_iff lawful_slots {}]

end CircuitConfig

namespace Settings

def slots : List (Slot Settings) :=
  [⟨"agent", AgentSettings.shape, (·.agent), fun all value => { all with agent := value }⟩,
   ⟨"circuit", CircuitConfig.shape, (·.circuit), fun all value => { all with circuit := value }⟩]

theorem shape_eq : shape = .ofSettings (slots.map Slot.setting) {} := rfl

theorem lawful_slots : Slot.Lawful slots where
  distinct := by decide
  get_set := by simp [slots]
  get_set_other := by simp [slots]

/-- Where both sections are objects, or missing. -/
def Sectioned (members : List (List TextUnit × Json)) : Prop :=
  ∀ key ∈ ["agent", "circuit"], ∀ json ∈ valuesOf key members, ∃ inner, json = .object inner

variable {members : List (List TextUnit × Json)}

theorem readable_section {α : Type} {shape : Shape α} {fields : List (String × (Json → Prop))}
    (readable : ∀ {members}, shape.read? (.object members) ≠ none ↔ Admits fields members) {json : Json}
    (object : ∃ inner, json = .object inner) :
    shape.read? json ≠ none ↔ ∃ inner, json = .object inner ∧ Admits fields inner := by
  obtain ⟨inner, rfl⟩ := object
  simp only [readable, Json.object.injEq, exists_eq_left']

theorem readable_iff (sectioned : Sectioned members) :
    shape.read? (.object members) ≠ none ↔ Admits fields members := by
  have agent := fun json member => readable_section AgentSettings.readable_iff (sectioned "agent" (by decide) json member)
  have circuit := fun json member =>
    readable_section CircuitConfig.readable_iff (sectioned "circuit" (by decide) json member)
  rw [shape_eq, Slot.readable_iff lawful_slots {}]
  simp only [Admits, fields, slots, List.map_cons, List.map_nil, Slot.field, List.forall_mem_cons]
  exact and_congr_right fun _ => and_congr (and_congr_right fun _ => forall₂_congr agent)
    (and_congr_left fun _ => and_congr_right fun _ => forall₂_congr circuit)

theorem ofFile_toUTF8 (chars : List Char) : ofFile (String.ofList chars).toUTF8 =
    match parse? chars with
    | none => .error .malformed
    | some settings => .ok settings := by
  have read : String.fromUTF8? (String.ofList chars).toUTF8 = some (String.ofList chars) := by
    simp only [String.fromUTF8?, String.toUTF8_eq_toByteArray, dif_pos (String.ofList chars).isValidUTF8]
    rfl
  cases parsed : parse? chars <;> simp only [ofFile, read, String.toList_ofList, parsed]

/-- Whatever the spelling, what is loaded is what is read from the value. -/
theorem load_spelled {storage : Storage} {path : Path} {chars : List Char} {json : Json}
    (found : storage.find? path = some (.file (String.ofList chars).toUTF8)) (spells : Spells json chars) :
    load storage path =
      match shape.read? json with
      | none => .error .malformed
      | some settings => .ok { settings with source := some path } := by
  have parsed : parse? chars = shape.read? json := by
    rw [parse?, parse?_of_spells spells]
    rfl
  cases read : shape.read? json <;> simp only [load, found, ofFile_toUTF8, parsed, read] <;> rfl

end Settings

end OnionCircuit
