import OnionCircuit.Proofs.SettingsOverrides

/-! Settings survive saving. Each shape reads what it writes, and so do the sections; what is written can be spelled, so
the text of a file gives the settings back that it was made of. -/

namespace OnionCircuit

open Json

namespace Shape

/-- What is written of a value can be spelled, and it is read as that value. -/
structure Faithful {α : Type} (shape : Shape α) : Prop where
  proper : ∀ value, Proper (shape.write value)
  read?_write : ∀ value, shape.read? (shape.write value) = some value

theorem faithful_word : word.Faithful where
  proper value := proper_number value.toNat
  read?_write _ := word_read?_eq_some.mpr rfl

theorem faithful_signed : signed.Faithful where
  proper value := proper_number value.toInt
  read?_write _ := signed_read?_eq_some.mpr rfl

theorem faithful_bool : bool.Faithful where
  proper _ := proper_of_token rfl trivial
  read?_write _ := rfl

theorem faithful_text : text.Faithful where
  proper value := by
    cases value with
    | none => exact proper_of_token rfl trivial
    | some text => exact proper_text text.toList
  read?_write value := by
    cases value with
    | none => rfl
    | some text => exact text_read?_eq_some.mpr (.text (TextUnit.chars?_ofChars _))

end Shape

namespace Slot

variable {σ : Type} {slots : List (Slot σ)}

/-- The members that are written of a section. -/
def members (slots : List (Slot σ)) (state : σ) : List (List TextUnit × Json) :=
  slots.map fun slot => (TextUnit.ofChars slot.key.toList, slot.shape.write (slot.get state))

theorem write_eq (default state : σ) :
    (Shape.ofSettings (slots.map setting) default).write state = .object (members slots state) := by
  simp only [Shape.ofSettings, List.map_map, members]
  rfl

theorem chars?_ofChars_iff {one other : String} :
    TextUnit.chars? (TextUnit.ofChars one.toList) = some other.toList ↔ one = other := by
  rw [TextUnit.chars?_ofChars, Option.some.injEq, String.toList_inj]

theorem valuesOf_foreign {key : String} (foreign : ∀ slot ∈ slots, slot.key ≠ key) (state : σ) :
    valuesOf key (members slots state) = [] := by
  induction slots with
  | nil => rfl
  | cons first slots ih =>
    obtain ⟨other, rest⟩ := List.forall_mem_cons.mp foreign
    rw [members, List.map_cons, valuesOf_other (mt chars?_ofChars_iff.mp other)]
    exact ih rest

theorem valuesOf_members (distinct : (slots.map (·.key)).Nodup) (state : σ) {slot : Slot σ} (member : slot ∈ slots) :
    valuesOf slot.key (members slots state) = [slot.shape.write (slot.get state)] := by
  induction slots with
  | nil => cases member
  | cons first slots ih =>
    rw [List.map_cons, List.nodup_cons] at distinct
    rw [members, List.map_cons]
    obtain rfl | within := List.mem_cons.mp member
    · rw [valuesOf_same (TextUnit.chars?_ofChars _)]
      refine congrArg _ (valuesOf_foreign (fun other among same => distinct.1 ?_) state)
      exact List.mem_map.mpr ⟨other, among, same⟩
    · have other : first.key ≠ slot.key := fun same => distinct.1 (List.mem_map.mpr ⟨slot, within, same.symm⟩)
      rw [valuesOf_other (mt chars?_ofChars_iff.mp other)]
      exact ih distinct.2 within

theorem keyed_members (state : σ) : Keyed (members slots state) := by
  intro member among
  obtain ⟨slot, -, rfl⟩ := List.mem_map.mp among
  rw [TextUnit.chars?_ofChars]
  exact Option.some_ne_none _

theorem proper_write (faithful : ∀ slot ∈ slots, slot.shape.Faithful) (default state : σ) :
    Proper ((Shape.ofSettings (slots.map setting) default).write state) := by
  rw [write_eq]
  refine proper_object fun member among => ?_
  obtain ⟨slot, within, rfl⟩ := List.mem_map.mp among
  exact ⟨proper_ofChars _, (faithful slot within).proper _⟩

/-- A section that was written is read with the same value in every place. -/
theorem exists_read_write (lawful : Lawful slots) (faithful : ∀ slot ∈ slots, slot.shape.Faithful) (default state : σ) :
    ∃ final, (Shape.ofSettings (slots.map setting) default).read?
        ((Shape.ofSettings (slots.map setting) default).write state) = some final ∧
      ∀ slot ∈ slots, slot.get final = slot.get state := by
  have fits : ∀ slot ∈ slots, slot.Fits (valuesOf slot.key (members slots state)) := by
    intro slot member
    rw [valuesOf_members lawful.distinct state member]
    exact (fits_iff_filled (slot.get default)).mpr ⟨_, .given ((faithful slot member).read?_write _)⟩
  rw [write_eq]
  obtain ⟨final, read⟩ :=
    Option.ne_none_iff_exists'.mp ((read?_object_ne_none lawful default).mpr ⟨keyed_members state, fits⟩)
  refine ⟨final, read, fun slot member => ?_⟩
  have filled := filled_of_read? lawful read member
  rw [valuesOf_members lawful.distinct state member] at filled
  generalize slot.get final = kept at filled
  cases filled with
  | given meant => exact Option.some.inj (meant.symm.trans ((faithful slot member).read?_write _))

end Slot

theorem AgentSettings.faithful_shape : AgentSettings.shape.Faithful := by
  have faithful : ∀ slot ∈ slots, slot.shape.Faithful := by
    simp only [slots, List.forall_mem_cons]
    exact ⟨Shape.faithful_word, Shape.faithful_signed, Shape.faithful_signed, Shape.faithful_signed, Shape.faithful_signed,
      Shape.faithful_signed, Shape.faithful_word, Shape.faithful_word, Shape.faithful_word, Shape.faithful_text,
      fun _ member => nomatch member⟩
  refine ⟨Slot.proper_write faithful {}, fun settings => ?_⟩
  obtain ⟨final, read, same⟩ := Slot.exists_read_write lawful_slots faithful {} settings
  rw [shape_eq, read]
  simp only [slots, List.forall_mem_cons] at same
  obtain ⟨⟨_, _, _, _, _, _, _, _, _⟩, _⟩ := final
  obtain ⟨⟨_, _, _, _, _, _, _, _, _⟩, _⟩ := settings
  obtain ⟨rfl, rfl, rfl, rfl, rfl, rfl, rfl, rfl, rfl, rfl, -⟩ := same
  rfl

theorem CircuitConfig.faithful_shape : CircuitConfig.shape.Faithful := by
  have faithful : ∀ slot ∈ slots, slot.shape.Faithful := by
    simp only [slots, List.forall_mem_cons]
    exact ⟨Shape.faithful_word, Shape.faithful_word, Shape.faithful_word, Shape.faithful_bool, Shape.faithful_bool,
      fun _ member => nomatch member⟩
  refine ⟨Slot.proper_write faithful {}, fun config => ?_⟩
  obtain ⟨final, read, same⟩ := Slot.exists_read_write lawful_slots faithful {} config
  rw [shape_eq, read]
  simp only [slots, List.forall_mem_cons] at same
  obtain ⟨_, _, _, _, _⟩ := final
  obtain ⟨_, _, _, _, _⟩ := config
  obtain ⟨rfl, rfl, rfl, rfl, rfl, -⟩ := same
  rfl

namespace Settings

theorem faithful_slots : ∀ slot ∈ slots, slot.shape.Faithful := by
  simp only [slots, List.forall_mem_cons]
  exact ⟨AgentSettings.faithful_shape, CircuitConfig.faithful_shape, fun _ member => nomatch member⟩

theorem spells_text (settings : Settings) : Spells (shape.write settings) settings.text :=
  spells_pretty (Slot.proper_write faithful_slots {} settings) 0

/-- What is written of settings holds both sections. -/
theorem read?_write (settings : Settings) : ∃ final, shape.read? (shape.write settings) = some final ∧
    final.agent = settings.agent ∧ final.circuit = settings.circuit := by
  obtain ⟨final, read, same⟩ := Slot.exists_read_write lawful_slots faithful_slots {} settings
  simp only [slots, List.forall_mem_cons] at same
  exact ⟨final, read, same.1, same.2.1⟩

/-- A file with the text of settings is loaded as those settings. -/
theorem load_saved {storage : Storage} {path : Path} {settings : Settings}
    (found : storage.find? path = some (.file (String.ofList settings.text).toUTF8)) :
    load storage path = .ok { settings with source := some path } := by
  obtain ⟨final, read, agent, circuit⟩ := read?_write settings
  rw [load_spelled found (spells_text settings), read]
  simp only [agent, circuit]

theorem load_source {storage : Storage} {path : Path} {settings : Settings} (loaded : load storage path = .ok settings) :
    settings.source = some path := by
  match found : storage.find? path with
  | none =>
    simp only [load, found] at loaded
    cases loaded
    rfl
  | some .directory =>
    simp only [load, found] at loaded
    cases loaded
  | some (.file content) =>
    simp only [load, found] at loaded
    cases read : ofFile content with
    | error _ =>
      rw [read] at loaded
      cases loaded
    | ok kept =>
      rw [read] at loaded
      cases loaded
      rfl

theorem saveTo_written {storage : Storage} {path : Path} (writable : storage.Writable path) (settings : Settings) :
    ∃ saved, settings.saveTo storage path = (saved, .ok ()) ∧
      saved.find? path = some (.file (String.ofList settings.text).toUTF8) ∧
      ∀ place, saved.locate? path ≠ some place → saved.fileAt? place = storage.fileAt? place := by
  obtain ⟨made, target, ready, grown, located, inside, free⟩ := Storage.exists_made writable
  obtain ⟨saved, wrote, there, found, others⟩ := Storage.exists_written writable.2.1 located inside
    (grown.at_target ▸ free) (String.ofList settings.text).toUTF8
  refine ⟨saved, ?_, found, fun place other => ?_⟩
  · simp only [saveTo, ready, wrote, if_true]
  · rw [Storage.fileAt?, others place fun same => other (same ▸ there)]
    exact grown.fileAt?_eq

/-- Saving succeeds just where a file can be written. -/
theorem saveTo_ok_iff {storage : Storage} {path : Path} (settings : Settings) :
    (settings.saveTo storage path).2 = .ok () ↔ storage.Writable path := by
  constructor
  · intro ok
    obtain ⟨made, grown, saved, wrote⟩ : ∃ made,
        (∀ {target}, made.isDirectory target = false → Storage.Grown target storage made) ∧
          ∃ saved, made.write? path (String.ofList settings.text).toUTF8 = some saved := by
      by_cases there : storage.contains path.parent = true
      · refine ⟨storage, fun _ => .refl, Option.ne_none_iff_exists'.mp fun failed => ?_⟩
        simp only [saveTo, if_pos there, if_true, failed] at ok
        cases ok
      · generalize along : storage.makeDirectories path.parent = result
        obtain ⟨made, ready⟩ := result
        refine ⟨made, Storage.grown_makeDirectories along, Option.ne_none_iff_exists'.mp fun failed => ?_⟩
        simp only [saveTo, if_neg there, along, failed] at ok
        cases ready <;> cases ok
    exact Storage.writable_of_write? grown wrote
  · intro writable
    obtain ⟨saved, wrote, -⟩ := saveTo_written writable settings
    rw [wrote]

/-- Settings survive saving: what is saved to a path where a file can be written is loaded from there again, and settings
that were loaded, changed and saved are what is loaded next. No other file changes. -/
theorem survives_saving {storage : Storage} {path : Path} (writable : storage.Writable path) :
    (∀ settings : Settings, ∃ saved, settings.saveTo storage path = (saved, .ok ()) ∧
      load saved path = .ok { settings with source := some path }) ∧
    ∀ (earlier : Storage) (loaded : Settings) (agent : AgentSettings) (circuit : CircuitConfig) (default : Path),
      load earlier path = .ok loaded → ∃ saved,
        Settings.save { loaded with agent := agent, circuit := circuit } storage default = (saved, .ok ()) ∧
        load saved path = .ok { loaded with agent := agent, circuit := circuit } ∧
        ∀ place, saved.locate? path ≠ some place → saved.fileAt? place = storage.fileAt? place := by
  constructor
  · intro settings
    obtain ⟨saved, wrote, found, -⟩ := saveTo_written writable settings
    exact ⟨saved, wrote, load_saved found⟩
  · intro earlier loaded agent circuit default loading
    have source := load_source loading
    obtain ⟨saved, wrote, found, others⟩ := saveTo_written writable { loaded with agent := agent, circuit := circuit }
    refine ⟨saved, ?_, ?_, others⟩
    · rw [save, source]
      exact wrote
    · rw [load_saved found, ← source]

def nestedPath : Path := ⟨["", "nested", "settings.json"]⟩

theorem survives_saving_nested :
    Storage.empty.Writable nestedPath ∧
    (∃ saved, Settings.saveTo { agent := { relayAddress := some "\x22\\\n" } } .empty nestedPath = (saved, .ok ()) ∧
      load saved nestedPath = .ok { agent := { relayAddress := some "\x22\\\n" }, source := some nestedPath }) ∧
    load .empty nestedPath = .ok { source := some nestedPath } ∧
    ∃ saved, Settings.save { agent := { maxPoints := 500 }, source := some nestedPath } .empty ⟨[]⟩ = (saved, .ok ()) ∧
      load saved nestedPath = .ok { agent := { maxPoints := 500 }, source := some nestedPath } := by
  have vacant : ∀ place, place ≠ [] → Storage.empty.entry? place = none := fun place inside => by
    simp only [Storage.empty, Storage.entry?, if_neg inside, Std.HashMap.getElem?_empty]
  have writable : Storage.empty.Writable nestedPath := by
    refine ⟨by decide, by decide, ["settings.json", "nested"], ?_⟩
    refine .enter (by decide) (by decide) (fun content => ?_) (.last (by decide) rfl ?_)
    all_goals
      rw [vacant _ (by decide)]
      exact (Option.some_ne_none _).symm
  have lost : Storage.empty.locate? nestedPath = none := by
    rw [Storage.locate?, if_pos (by decide)]
    refine Option.eq_none_iff_forall_not_mem.mpr fun place walked => ?_
    have start := Storage.isDirectory_of_walk? (Storage.walk?_enter.mp walked).2.2
    rw [Storage.isDirectory_iff, vacant _ (by decide)] at start
    cases start
  have loading : load .empty nestedPath = .ok { source := some nestedPath } := by
    simp only [load, Storage.find?, lost]
    rfl
  obtain ⟨saved, wrote, loaded, -⟩ := (survives_saving writable).2 .empty _ { maxPoints := 500 } {} ⟨[]⟩ loading
  exact ⟨writable, (survives_saving writable).1 _, loading, saved, wrote, loaded⟩

end Settings

end OnionCircuit
