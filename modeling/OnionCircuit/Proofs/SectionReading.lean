import Mathlib.Data.List.Nodup
import OnionCircuit.Settings.Shape

/-! Reading a section of settings from an object. The members are taken one after another, and what is read depends on
nothing but the values that the keys of the settings have: a key without a value leaves the default, one value takes
its place, and a second one is refused. The order of the members and all other keys do not matter. -/

namespace OnionCircuit

namespace Json

/-- The values of the members with a key, in their order. -/
def valuesOf (key : String) (members : List (List TextUnit × Json)) : List Json :=
  members.filterMap fun member => if TextUnit.chars? member.1 = some key.toList then some member.2 else none

theorem valuesOf_same {key : String} {units : List TextUnit} (named : TextUnit.chars? units = some key.toList)
    (json : Json) (members : List (List TextUnit × Json)) :
    valuesOf key ((units, json) :: members) = json :: valuesOf key members := by
  simp only [valuesOf, List.filterMap_cons, named, if_pos]

theorem valuesOf_other {key : String} {units : List TextUnit} (named : TextUnit.chars? units ≠ some key.toList)
    (json : Json) (members : List (List TextUnit × Json)) :
    valuesOf key ((units, json) :: members) = valuesOf key members := by
  simp only [valuesOf, List.filterMap_cons, if_neg named]

/-- What the values of a key make of a default. -/
inductive Filled {α : Type} (means : Json → α → Prop) (default : α) : List Json → α → Prop
  | absent : Filled means default [] default
  | given {json : Json} {value : α} (meant : means json value) : Filled means default [json] value

theorem Filled.imp {α : Type} {means same : Json → α → Prop} {values : List Json}
    (implies : ∀ json ∈ values, ∀ value, means json value → same json value) {default value : α}
    (filled : Filled means default values value) : Filled same default values value := by
  cases filled with
  | absent => exact .absent
  | given meant => exact .given (implies _ List.mem_cons_self _ meant)

/-- Every key consists of characters. -/
def Keyed (members : List (List TextUnit × Json)) : Prop := ∀ member ∈ members, TextUnit.chars? member.1 ≠ none

end Json

/-- A setting with the place in the section where its value is kept. -/
structure Slot (σ : Type) where
  {Value : Type}
  key : String
  shape : Shape Value
  get : σ → Value
  set : σ → Value → σ

namespace Slot

open Json

variable {σ : Type} {slots : List (Slot σ)}

def setting (slot : Slot σ) : Setting σ := slot.shape.setting slot.key slot.get slot.set

def Means (slot : Slot σ) (json : Json) (value : slot.Value) : Prop := slot.shape.read? json = some value

/-- Every setting has its own key and its own place. -/
structure Lawful (slots : List (Slot σ)) : Prop where
  distinct : (slots.map (·.key)).Nodup
  get_set : ∀ slot ∈ slots, ∀ state value, slot.get (slot.set state value) = value
  get_set_other : ∀ slot ∈ slots, ∀ other ∈ slots, slot.key ≠ other.key → ∀ state value,
    other.get (slot.set state value) = other.get state

/-- The section that an object gives, and the keys that were seen. -/
def readAll (slots : List (Slot σ)) (state : σ × List String) (members : List (List TextUnit × Json)) :
    Option (σ × List String) :=
  members.foldlM (Shape.readMember? (slots.map setting)) state

/-- The setting that a key of an object names. -/
def named? (slots : List (Slot σ)) (chars : List Char) : Option (Slot σ) :=
  slots.find? fun slot => slot.key.toList = chars

theorem key_of_named? {chars : List Char} {slot : Slot σ} (named : named? slots chars = some slot) :
    slot ∈ slots ∧ slot.key.toList = chars :=
  ⟨List.mem_of_find?_eq_some named, by simpa using List.find?_some named⟩

theorem readMember?_eq (slots : List (Slot σ)) (state : σ) (seen : List String) (units : List TextUnit) (json : Json) :
    Shape.readMember? (slots.map setting) (state, seen) (units, json) =
      (TextUnit.chars? units).bind fun chars =>
        match named? slots chars with
        | none => some (state, seen)
        | some slot =>
          if slot.key ∈ seen then none
          else (slot.shape.read? json).map fun value => (slot.set state value, slot.key :: seen) := by
  rw [Shape.readMember?]
  cases TextUnit.chars? units with
  | none => rfl
  | some chars =>
    have same : slots.find? ((fun setting => decide (setting.key = String.ofList chars)) ∘ setting) =
        named? slots chars := by
      refine congrArg (List.find? · slots) (funext fun slot => decide_eq_decide.mpr ?_)
      rw [← String.toList_inj, String.toList_ofList]
      rfl
    simp only [bind, Option.bind_some, List.find?_map, same]
    cases found : named? slots chars with
    | none => rfl
    | some slot =>
      have key : slot.key = String.ofList chars := by
        rw [← (key_of_named? found).2, String.ofList_toList]
      simp only [Option.map_some, List.contains_iff_mem, ← key]
      split
      · rfl
      · cases read : slot.shape.read? json <;> simp [setting, Shape.setting, read]

/-- The next member is unknown and passed over, or it is one of the settings and its key is new. -/
theorem readMember?_eq_some {state : σ} {seen : List String} {units : List TextUnit} {json : Json}
    {next : σ × List String} (read : Shape.readMember? (slots.map setting) (state, seen) (units, json) = some next) :
    ∃ chars, TextUnit.chars? units = some chars ∧
      ((∀ slot ∈ slots, slot.key.toList ≠ chars) ∧ next = (state, seen) ∨
        ∃ slot ∈ slots, slot.key.toList = chars ∧ slot.key ∉ seen ∧
          ∃ value, slot.Means json value ∧ next = (slot.set state value, slot.key :: seen)) := by
  rw [readMember?_eq] at read
  obtain ⟨chars, text, read⟩ := Option.bind_eq_some_iff.mp read
  refine ⟨chars, text, ?_⟩
  split at read
  next unnamed =>
    exact Or.inl ⟨fun slot member same => List.find?_eq_none.mp unnamed slot member (decide_eq_true same),
      (Option.some.inj read).symm⟩
  next slot named =>
    split at read
    · cases read
    next fresh =>
      obtain ⟨value, meant, rfl⟩ := Option.map_eq_some_iff.mp read
      exact Or.inr ⟨slot, (key_of_named? named).1, (key_of_named? named).2, fresh, value, meant, rfl⟩

/-- A member is refused if its key is no text, or if it is that of a setting which was seen before or cannot be read. -/
theorem readMember?_eq_none {state : σ} {seen : List String} {units : List TextUnit} {json : Json}
    (read : Shape.readMember? (slots.map setting) (state, seen) (units, json) = none) :
    TextUnit.chars? units = none ∨ ∃ slot ∈ slots, TextUnit.chars? units = some slot.key.toList ∧
      (slot.key ∈ seen ∨ slot.shape.read? json = none) := by
  rw [readMember?_eq] at read
  cases text : TextUnit.chars? units with
  | none => exact Or.inl rfl
  | some chars =>
    rw [text, Option.bind_some] at read
    split at read
    · cases read
    next slot named =>
      obtain ⟨member, key⟩ := key_of_named? named
      refine Or.inr ⟨slot, member, congrArg some key.symm, ?_⟩
      split at read
      next seen => exact Or.inl seen
      · exact Or.inr (Option.map_eq_none_iff.mp read)

/-- What all members together make of each setting. -/
theorem filled_of_readAll (lawful : Lawful slots) {members : List (List TextUnit × Json)} {state final : σ}
    {seen after : List String} (read : readAll slots (state, seen) members = some (final, after)) {slot : Slot σ}
    (member : slot ∈ slots) :
    (slot.key ∈ seen → valuesOf slot.key members = [] ∧ slot.get final = slot.get state) ∧
      (slot.key ∉ seen → Filled slot.Means (slot.get state) (valuesOf slot.key members) (slot.get final)) := by
  induction members generalizing state seen with
  | nil =>
    cases read
    exact ⟨fun _ => ⟨rfl, rfl⟩, fun _ => .absent⟩
  | cons first members ih =>
    obtain ⟨units, json⟩ := first
    obtain ⟨next, taken, read⟩ := Option.bind_eq_some_iff.mp read
    obtain ⟨chars, text, ⟨unknown, rfl⟩ | ⟨other, known, key, fresh, value, meant, rfl⟩⟩ := readMember?_eq_some taken
    · rw [valuesOf_other (text ▸ fun same => unknown slot member (Option.some.inj same).symm)]
      exact ih read
    · subst key
      by_cases same : other.key = slot.key
      · -- The first value of the key: from here on the key is seen, so there is no second one.
        obtain rfl := List.inj_on_of_nodup_map lawful.distinct known member same
        obtain ⟨none, kept⟩ := (ih read).1 List.mem_cons_self
        rw [valuesOf_same text, none, kept, lawful.get_set _ known]
        exact ⟨fun seen => absurd seen fresh, fun _ => .given meant⟩
      · have left := lawful.get_set_other _ known _ member same state value
        rw [valuesOf_other (text ▸ fun equal => same (String.toList_inj.mp (Option.some.inj equal))), ← left]
        have unseen : slot.key ∈ other.key :: seen ↔ slot.key ∈ seen :=
          ⟨fun among => (List.mem_cons.mp among).resolve_left fun equal => same equal.symm, List.mem_cons_of_mem _⟩
        rw [← unseen]
        exact ih read

/-- There is at most one value, and it can be read. -/
def Fits (slot : Slot σ) (values : List Json) : Prop := values.length ≤ 1 ∧ ∀ json ∈ values, slot.shape.read? json ≠ none

theorem fits_iff_filled {slot : Slot σ} (default : slot.Value) {values : List Json} :
    slot.Fits values ↔ ∃ value, Filled slot.Means default values value := by
  constructor
  · rintro ⟨few, readable⟩
    match values with
    | [] => exact ⟨default, .absent⟩
    | [json] =>
      obtain ⟨value, meant⟩ := Option.ne_none_iff_exists'.mp (readable json List.mem_cons_self)
      exact ⟨value, .given meant⟩
    | _ :: _ :: _ => simp at few
  · rintro ⟨value, filled⟩
    cases filled with
    | absent => exact ⟨Nat.zero_le 1, fun _ member => nomatch member⟩
    | given meant => exact ⟨Nat.le_refl 1, by simp [show slot.shape.read? _ = some value from meant]⟩

theorem Fits.tail {slot : Slot σ} {first : List TextUnit × Json} {members : List (List TextUnit × Json)}
    (fits : slot.Fits (valuesOf slot.key (first :: members))) : slot.Fits (valuesOf slot.key members) := by
  by_cases named : TextUnit.chars? first.1 = some slot.key.toList
  · rw [valuesOf_same named] at fits
    exact ⟨Nat.le_trans (Nat.le_succ _) fits.1, fun json member => fits.2 json (List.mem_cons_of_mem _ member)⟩
  · rwa [valuesOf_other named] at fits

theorem readAll_ne_none {members : List (List TextUnit × Json)} (keyed : Keyed members) {state : σ} {seen : List String}
    (fits : ∀ slot ∈ slots, slot.Fits (valuesOf slot.key members))
    (done : ∀ slot ∈ slots, slot.key ∈ seen → valuesOf slot.key members = []) :
    readAll slots (state, seen) members ≠ none := by
  induction members generalizing state seen with
  | nil => exact Option.some_ne_none _
  | cons first members ih =>
    obtain ⟨units, json⟩ := first
    intro failed
    cases taken : Shape.readMember? (slots.map setting) (state, seen) (units, json) with
    | none =>
      obtain nameless | ⟨slot, member, text, seen | unread⟩ := readMember?_eq_none taken
      · exact keyed _ List.mem_cons_self nameless
      · have none := done slot member seen
        rw [valuesOf_same text] at none
        cases none
      · have fit := fits slot member
        rw [valuesOf_same text] at fit
        exact fit.2 json List.mem_cons_self unread
    | some next =>
      rw [readAll, List.foldlM_cons, taken] at failed
      refine ih (fun member among => keyed member (List.mem_cons_of_mem _ among))
        (fun slot member => (fits slot member).tail) (fun slot member among => ?_) failed
      by_cases named : TextUnit.chars? units = some slot.key.toList
      · have fit := (fits slot member).1
        rw [valuesOf_same named, List.length_cons] at fit
        exact List.eq_nil_of_length_eq_zero (Nat.le_zero.mp (Nat.le_of_succ_le_succ fit))
      · have before : slot.key ∈ seen := by
          obtain ⟨chars, text, ⟨_, rfl⟩ | ⟨other, _, key, _, _, _, rfl⟩⟩ := readMember?_eq_some taken
          · exact among
          · refine (List.mem_cons.mp among).resolve_left fun same => named ?_
            rw [same, key]
            exact text
        have none := done slot member before
        rwa [valuesOf_other named] at none

theorem keyed_of_readAll {members : List (List TextUnit × Json)} {state final : σ × List String}
    (read : readAll slots state members = some final) : Keyed members := by
  induction members generalizing state with
  | nil => exact fun _ member => nomatch member
  | cons first members ih =>
    obtain ⟨next, taken, read⟩ := Option.bind_eq_some_iff.mp read
    obtain ⟨chars, text, -⟩ := readMember?_eq_some taken
    refine fun member among => ?_
    cases List.mem_cons.mp among with
    | inl same => exact same ▸ text ▸ Option.some_ne_none chars
    | inr among => exact ih read member among

variable {members : List (List TextUnit × Json)}

theorem read?_object {default final : σ} :
    (Shape.ofSettings (slots.map setting) default).read? (.object members) = some final ↔
      ∃ seen, readAll slots (default, []) members = some (final, seen) := by
  simp only [Shape.ofSettings, readAll, Option.map_eq_some_iff, Prod.exists, exists_and_right, exists_eq_right]

/-- What is read from an object: every setting has the value that it is given there or else its default. -/
theorem filled_of_read? (lawful : Lawful slots) {default final : σ}
    (read : (Shape.ofSettings (slots.map setting) default).read? (.object members) = some final) {slot : Slot σ}
    (member : slot ∈ slots) : Filled slot.Means (slot.get default) (valuesOf slot.key members) (slot.get final) := by
  obtain ⟨seen, read⟩ := read?_object.mp read
  exact (filled_of_readAll lawful read member).2 List.not_mem_nil

/-- When a section can be read from an object. -/
theorem read?_object_ne_none (lawful : Lawful slots) (default : σ) :
    (Shape.ofSettings (slots.map setting) default).read? (.object members) ≠ none ↔
      Keyed members ∧ ∀ slot ∈ slots, slot.Fits (valuesOf slot.key members) := by
  constructor
  · intro readable
    obtain ⟨final, read⟩ := Option.ne_none_iff_exists'.mp readable
    refine ⟨keyed_of_readAll (read?_object.mp read).choose_spec, fun slot member => ?_⟩
    exact (fits_iff_filled _).mpr ⟨_, filled_of_read? lawful read member⟩
  · rintro ⟨keyed, fits⟩
    obtain ⟨⟨final, seen⟩, read⟩ := Option.ne_none_iff_exists'.mp
      (readAll_ne_none keyed fits fun _ _ seen => absurd seen List.not_mem_nil)
    exact Option.ne_none_iff_exists'.mpr ⟨final, read?_object.mpr ⟨seen, read⟩⟩

end Slot
end OnionCircuit
