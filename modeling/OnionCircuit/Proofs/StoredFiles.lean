import OnionCircuit.Settings.Storage

/-! Writing a file where a path leads. The directories on the way are made where nothing is in their place; what was
written is found under the path again, and no other file changes. -/

namespace OnionCircuit.Storage

variable {storage current made : Storage} {place other target : Place} {entry : Entry} {steps : List Path.Step}

/-- The content of a file. -/
def fileAt? (storage : Storage) (place : Place) : Option ByteArray :=
  match storage.entry? place with
  | some (.file content) => some content
  | _ => none

theorem isDirectory_iff : storage.isDirectory place = true ↔ storage.entry? place = some .directory := by
  rw [isDirectory]
  split <;> simp_all

theorem entry?_insert (inside : place ≠ []) :
    Storage.entry? (storage.insert place entry) other = if place = other then some entry else storage.entry? other := by
  simp only [insert, entry?, Std.HashMap.getElem?_insert, beq_iff_eq]
  split
  next root =>
    subst root
    rw [if_neg inside]
  next => rfl

theorem walk?_up : storage.walk? place (.up :: steps) = some target ↔
    storage.isDirectory place = true ∧ storage.walk? place.tail steps = some target :=
  Option.ite_none_right_eq_some

theorem walk?_enter {name : String} : storage.walk? place (.enter name :: steps) = some target ↔
    storage.isDirectory place = true ∧ admits name = true ∧ storage.walk? (name :: place) steps = some target :=
  Option.ite_none_right_eq_some.trans (and_congr_right' Option.ite_none_right_eq_some)

/-- A walk starts in a directory. -/
theorem isDirectory_of_walk? {step : Path.Step} (walked : storage.walk? place (step :: steps) = some target) :
    storage.isDirectory place = true := by
  cases step with
  | up => exact (walk?_up.mp walked).1
  | enter _ => exact (walk?_enter.mp walked).1

/-- More directories do not lead a walk astray. -/
theorem walk?_of_directories {after : Storage}
    (kept : ∀ place, storage.isDirectory place = true → after.isDirectory place = true)
    (walked : storage.walk? place steps = some target) : after.walk? place steps = some target := by
  induction steps generalizing place with
  | nil => exact walked
  | cons step steps ih =>
    cases step with
    | up =>
      obtain ⟨start, walked⟩ := walk?_up.mp walked
      exact walk?_up.mpr ⟨kept place start, ih walked⟩
    | enter name =>
      obtain ⟨start, admitted, walked⟩ := walk?_enter.mp walked
      exact walk?_enter.mpr ⟨kept place start, admitted, ih walked⟩

/-- The steps lead to a place where a file can be written. On the way, which does not pass that place, there is nothing
but directories or names that are free. -/
inductive Leads (storage : Storage) (target : Place) : Place → List Path.Step → Prop
  | last {place : Place} {name : String} (admitted : admits name = true) (arrived : name :: place = target)
    (open_ : storage.entry? target ≠ some .directory) : Leads storage target place [.enter name]
  | up {place : Place} {steps : List Path.Step} (more : Leads storage target place.tail steps) :
    Leads storage target place (.up :: steps)
  | enter {place : Place} {name : String} {steps : List Path.Step} (admitted : admits name = true)
    (apart : name :: place ≠ target) (clear : ∀ content, storage.entry? (name :: place) ≠ some (.file content))
    (more : Leads storage target (name :: place) steps) : Leads storage target place (.enter name :: steps)

/-- A file can be written at a path. -/
def Writable (storage : Storage) (path : Path) : Prop :=
  path.isSound = true ∧ path.ofDirectory = false ∧ ∃ target, storage.Leads target [] path.steps

/-- Only directories were made since, and none of them at a place. -/
def Grown (target : Place) (storage made : Storage) : Prop :=
  ∀ place, made.entry? place = storage.entry? place ∨
    storage.entry? place = none ∧ made.entry? place = some .directory ∧ place ≠ target

/-- The place and the ones that it lies in are directories. -/
def Grounded (storage : Storage) (place : Place) : Prop := ∀ outer, outer <:+ place → storage.isDirectory outer = true

theorem Grown.refl : Grown target storage storage := fun _ => Or.inl rfl

theorem Grown.isDirectory (grown : Grown target storage made) (directory : storage.isDirectory place = true) :
    made.isDirectory place = true := by
  rw [isDirectory_iff] at directory ⊢
  obtain same | ⟨free, -, -⟩ := grown place
  · rw [same, directory]
  · rw [directory] at free
    cases free

theorem Grown.trans {after : Storage} (first : Grown target storage made) (second : Grown target made after) :
    Grown target storage after := by
  intro place
  obtain same | ⟨free, now, apart⟩ := second place
  · rw [same]
    exact first place
  · obtain same | ⟨-, directory, -⟩ := first place
    · exact Or.inr ⟨same ▸ free, now, apart⟩
    · rw [directory] at free
      cases free

theorem Grown.file_iff (grown : Grown target storage made) {content : ByteArray} :
    made.entry? place = some (.file content) ↔ storage.entry? place = some (.file content) := by
  obtain same | ⟨free, directory, -⟩ := grown place
  · rw [same]
  · simp [free, directory]

theorem Grown.fileAt?_eq (grown : Grown target storage made) : made.fileAt? place = storage.fileAt? place := by
  obtain same | ⟨free, directory, -⟩ := grown place
  · simp only [fileAt?, same]
  · simp only [fileAt?, free, directory]

theorem Grown.at_target (grown : Grown target storage made) : made.entry? target = storage.entry? target := by
  obtain same | ⟨-, -, apart⟩ := grown target
  · exact same
  · exact absurd rfl apart

theorem grown_insert {name : String} (free : storage.entry? (name :: place) = none) (apart : name :: place ≠ target) :
    Grown target storage (storage.insert (name :: place) .directory) := by
  intro other
  rw [entry?_insert (List.cons_ne_nil _ _)]
  split
  next same => exact Or.inr (same ▸ ⟨free, rfl, apart⟩)
  next => exact Or.inl rfl

theorem Grounded.grown (grounded : storage.Grounded place) (grown : Grown target storage made) : made.Grounded place :=
  fun outer within => grown.isDirectory (grounded outer within)

theorem grounded_root : storage.Grounded [] := by
  intro outer within
  obtain rfl := List.suffix_nil.mp within
  exact isDirectory_iff.mpr rfl

theorem Grounded.tail (grounded : storage.Grounded place) : storage.Grounded place.tail :=
  fun outer within => grounded outer (within.trans (List.tail_suffix place))

theorem Grounded.enter {name : String} (grounded : storage.Grounded place)
    (directory : storage.entry? (name :: place) = some .directory) : storage.Grounded (name :: place) := by
  intro outer within
  obtain rfl | within := List.suffix_cons_iff.mp within
  · exact isDirectory_iff.mpr directory
  · exact grounded outer within

theorem Leads.steps_ne_nil (leads : storage.Leads target place steps) : steps ≠ [] := by cases leads <;> simp

/-- One step into a directory, which is made if nothing is in its place. -/
theorem makeAlong_enter {name : String} (admitted : admits name = true) (apart : name :: place ≠ target)
    (clear : ∀ content, storage.entry? (name :: place) ≠ some (.file content)) :
    ∃ next, (∀ rest, storage.makeAlong place (.enter name :: rest) = next.makeAlong (name :: place) rest) ∧
      Grown target storage next ∧ next.entry? (name :: place) = some .directory := by
  cases found : storage.entry? (name :: place) with
  | none =>
    refine ⟨storage.insert (name :: place) .directory, fun rest => ?_, grown_insert found apart, ?_⟩
    · rw [makeAlong, if_pos admitted, found]
    · rw [entry?_insert (List.cons_ne_nil _ _), if_pos rfl]
  | some entry =>
    cases entry with
    | file content => exact absurd found (clear content)
    | directory =>
      refine ⟨storage, fun rest => ?_, .refl, found⟩
      rw [makeAlong, if_pos admitted, found]

/-- The way to a file that can be written is made without an obstacle, and afterwards it can be walked. -/
theorem makeAlong_of_leads (leads : storage.Leads target place steps) (grown : Grown target storage current)
    (grounded : current.Grounded place) :
    ∃ made, current.makeAlong place steps.dropLast = (made, true) ∧ Grown target current made ∧
      made.walk? place steps = some target := by
  induction leads generalizing current with
  | last admitted arrived open_ =>
    exact ⟨current, rfl, .refl, walk?_enter.mpr ⟨grounded _ (List.suffix_refl _), admitted, congrArg some arrived⟩⟩
  | @up place steps more ih =>
    obtain ⟨made, along, later, walked⟩ := ih grown grounded.tail
    refine ⟨made, ?_, later, walk?_up.mpr ⟨later.isDirectory (grounded _ (List.suffix_refl _)), walked⟩⟩
    rw [List.dropLast_cons_of_ne_nil more.steps_ne_nil, makeAlong, along]
  | @enter place name steps admitted apart clear more ih =>
    -- Only directories were made so far, so no file has come in the way.
    have free : ∀ content, current.entry? (name :: place) ≠ some (.file content) :=
      fun content file => clear content (grown.file_iff.mp file)
    obtain ⟨next, begun, later, there⟩ := makeAlong_enter admitted apart free
    obtain ⟨made, along, after, walked⟩ := ih (grown.trans later) ((grounded.grown later).enter there)
    have start := (later.trans after).isDirectory (grounded _ (List.suffix_refl _))
    refine ⟨made, ?_, later.trans after, walk?_enter.mpr ⟨start, admitted, walked⟩⟩
    rw [List.dropLast_cons_of_ne_nil more.steps_ne_nil, begun, along]

/-- Where a directory can be reached, nothing is to be made. -/
theorem makeAlong_of_walk? (walked : storage.walk? place steps = some target)
    (directory : storage.isDirectory target = true) : storage.makeAlong place steps = (storage, true) := by
  induction steps generalizing place with
  | nil => rfl
  | cons step steps ih =>
    cases step with
    | up => exact ih (walk?_up.mp walked).2
    | enter name =>
      obtain ⟨-, admitted, walked⟩ := walk?_enter.mp walked
      have there : storage.isDirectory (name :: place) = true := by
        cases steps with
        | nil => exact Option.some.inj walked ▸ directory
        | cons _ _ => exact isDirectory_of_walk? walked
      rw [makeAlong, if_pos admitted, isDirectory_iff.mp there]
      exact ih walked

/-- No file is on the way to a file. -/
theorem not_file_of_leads (leads : storage.Leads target place steps)
    (clear : ∀ outer, outer <:+ place → ∀ content, storage.entry? outer ≠ some (.file content)) {way : Place}
    (walked : storage.walk? place steps.dropLast = some way) (content : ByteArray) :
    storage.entry? way ≠ some (.file content) := by
  induction leads with
  | last =>
    obtain rfl := Option.some.inj walked
    exact clear _ (List.suffix_refl _) content
  | @up place steps more ih =>
    rw [List.dropLast_cons_of_ne_nil more.steps_ne_nil] at walked
    exact ih (fun outer within => clear outer (within.trans (List.tail_suffix place))) (walk?_up.mp walked).2
  | @enter place name steps admitted apart free more ih =>
    rw [List.dropLast_cons_of_ne_nil more.steps_ne_nil] at walked
    refine ih (fun outer within => ?_) (walk?_enter.mp walked).2.2
    obtain rfl | within := List.suffix_cons_iff.mp within
    · exact free
    · exact clear outer within

/-! The path of the parent. -/

end OnionCircuit.Storage

namespace OnionCircuit.Path

theorem prefix_trimmed (names : List String) : trimmed names <+: names := by
  rw [trimmed, ← List.reverse_suffix, List.reverse_reverse]
  exact List.dropWhile_suffix _

/-- What is dropped at the end of the names leads nowhere. -/
theorem steps_trimmed (names : List String) : (⟨trimmed names⟩ : Path).steps = (⟨names⟩ : Path).steps := by
  have dropped : ∀ names : List String,
      (names.dropWhile fun name => (step? name).isNone).filterMap step? = names.filterMap step? := by
    intro names
    induction names with
    | nil => rfl
    | cons name names ih =>
      cases found : step? name with
      | none => rw [List.dropWhile_cons_of_pos (by rw [found]; rfl), ih, List.filterMap_cons_none found]
      | some step => rw [List.dropWhile_cons_of_neg (by simp [found])]
  simp only [steps, trimmed, List.filterMap_reverse, dropped, List.reverse_reverse]

theorem trimmed_concat {name : String} {step : Step} (leads : step? name = some step) (names : List String) :
    trimmed (names ++ [name]) = names ++ [name] := by
  simp [trimmed, leads]

theorem steps_parent {path : Path} (named : path.ofDirectory = false) : path.parent.steps = path.steps.dropLast := by
  obtain ⟨step, last⟩ := Option.isSome_iff_exists.mp (Option.isNone_eq_false_iff.mp named)
  obtain ⟨name, end_, leads⟩ := Option.bind_eq_some_iff.mp last
  obtain ⟨names, split⟩ := List.getLast?_eq_some_iff.mp end_
  rw [parent, steps_trimmed, split, trimmed_concat leads, List.dropLast_concat, steps, steps, split, List.filterMap_append,
    List.filterMap_cons_some leads, List.filterMap_nil, List.dropLast_concat]

theorem size_le_append (names rest : List String) : (⟨names⟩ : Path).size ≤ (⟨names ++ rest⟩ : Path).size := by
  have grows : ∀ start, start ≤ rest.foldl (fun size name => size + name.utf8ByteSize + 1) start := by
    induction rest with
    | nil => exact Nat.le_refl
    | cons name rest ih => exact fun start => Nat.le_trans (Nat.le_succ_of_le (Nat.le_add_right start _)) (ih _)
  rw [size, size, List.foldl_append]
  exact grows _

theorem isSound_parent {path : Path} (sound : path.isSound = true) : path.parent.isSound = true := by
  obtain ⟨rest, whole⟩ : path.parent.names <+: path.names :=
    ((prefix_trimmed _).trans (List.dropLast_prefix _)).trans (prefix_trimmed _)
  simp only [isSound, Bool.and_eq_true, decide_eq_true_eq, List.all_eq_true] at sound ⊢
  refine ⟨Nat.le_trans ?_ sound.1, fun name member => sound.2 name (whole ▸ List.mem_append_left _ member)⟩
  have grows := size_le_append path.parent.names rest
  rwa [whole] at grows

end OnionCircuit.Path

namespace OnionCircuit.Storage

variable {storage made : Storage} {place target : Place} {steps : List Path.Step} {path : Path}

theorem Leads.arrives (leads : storage.Leads target place steps) :
    target ≠ [] ∧ storage.entry? target ≠ some .directory := by
  induction leads with
  | last _ arrived open_ => exact ⟨arrived ▸ List.cons_ne_nil _ _, open_⟩
  | up _ ih => exact ih
  | enter _ _ _ _ ih => exact ih

theorem find?_file {content : ByteArray} (named : path.ofDirectory = false) (located : storage.locate? path = some target)
    (stands : storage.entry? target = some (.file content)) : storage.find? path = some (.file content) := by
  simp only [find?, located, stands, bind, Option.bind, named, Bool.false_eq_true, if_false, pure]

/-- Whether the parent is there or has to be made, afterwards the path leads to its place. -/
theorem exists_made (writable : storage.Writable path) : ∃ made target,
    (if storage.contains path.parent then (storage, true) else storage.makeDirectories path.parent) = (made, true) ∧
      Grown target storage made ∧ made.locate? path = some target ∧ target ≠ [] ∧
        storage.entry? target ≠ some .directory := by
  obtain ⟨sound, named, target, leads⟩ := writable
  obtain ⟨made, along, grown, walked⟩ := makeAlong_of_leads leads .refl grounded_root
  refine ⟨made, target, ?_, grown, by rw [locate?, if_pos sound, walked], leads.arrives⟩
  have parentSound := Path.isSound_parent sound
  split
  next there =>
    obtain ⟨entry, found⟩ := Option.isSome_iff_exists.mp there
    obtain ⟨way, located, found⟩ := Option.bind_eq_some_iff.mp found
    obtain ⟨entry, stands, -⟩ := Option.bind_eq_some_iff.mp found
    rw [locate?, if_pos parentSound, Path.steps_parent named] at located
    -- The parent may be there as a file, but not on the way to a file.
    have directory : storage.isDirectory way = true := by
      cases entry with
      | directory => exact isDirectory_iff.mpr stands
      | file content =>
        refine absurd stands (not_file_of_leads leads (fun outer within content file => ?_) located content)
        cases (isDirectory_iff.mp (grounded_root outer within)).symm.trans file
    rw [makeAlong_of_walk? located directory] at along
    exact along
  · rw [makeDirectories, if_pos parentSound, Path.steps_parent named, along]

/-- A file is found where it was written, and all other entries are what they were. -/
theorem exists_written (named : path.ofDirectory = false) (located : made.locate? path = some target) (inside : target ≠ [])
    (free : made.entry? target ≠ some .directory) (content : ByteArray) :
    ∃ saved, made.write? path content = some saved ∧ saved.locate? path = some target ∧
      saved.find? path = some (.file content) ∧ ∀ place, place ≠ target → saved.entry? place = made.entry? place := by
  have noDirectory : made.isDirectory target = false := Bool.eq_false_iff.mpr (mt isDirectory_iff.mp free)
  have others : ∀ place, place ≠ target → Storage.entry? (made.insert target (.file content)) place = made.entry? place :=
    fun place other => by rw [entry?_insert inside, if_neg (Ne.symm other)]
  have there : (made.insert target (.file content)).locate? path = some target := by
    by_cases sound : path.isSound = true
    · rw [locate?, if_pos sound] at located ⊢
      refine walk?_of_directories (fun place directory => ?_) located
      rw [isDirectory_iff] at directory ⊢
      rw [others place fun same => free (same ▸ directory), directory]
    · rw [locate?, if_neg sound] at located
      cases located
  refine ⟨made.insert target (.file content), ?_, there, find?_file named there ?_, others⟩
  · simp only [write?, located, bind, Option.bind, named, noDirectory, Bool.or_self, Bool.false_eq_true, if_false, pure]
  · rw [entry?_insert inside, if_pos rfl]

/-! Where a file was written, it can be. -/

/-- Making directories only adds some. -/
theorem grown_makeAlong {ready : Bool} (along : storage.makeAlong place steps = (made, ready))
    (free : made.isDirectory target = false) : Grown target storage made := by
  induction steps generalizing storage place with
  | nil =>
    cases along
    exact .refl
  | cons step steps ih =>
    cases step with
    | up => exact ih along
    | enter name =>
      rw [makeAlong] at along
      split at along
      · split at along
        · cases along
          exact .refl
        · exact ih along
        next vacant =>
          have later := ih along
          refine (grown_insert vacant fun same => ?_).trans later
          have there := later.isDirectory
            (isDirectory_iff.mpr ((entry?_insert (List.cons_ne_nil name place)).trans (if_pos rfl)))
          rw [same, free] at there
          cases there
      · cases along
        exact .refl

theorem grown_makeDirectories {ready : Bool} (along : storage.makeDirectories path = (made, ready))
    (free : made.isDirectory target = false) : Grown target storage made := by
  rw [makeDirectories] at along
  split at along
  · exact grown_makeAlong along free
  · cases along
    exact .refl

/-- A walk to a place without a directory shows that a file can be written there. -/
theorem leads_of_walk? (grown : Grown target storage made) (free : made.isDirectory target = false)
    (grounded : made.Grounded place) (walked : made.walk? place steps = some target) :
    storage.Leads target place steps := by
  induction steps generalizing place with
  | nil =>
    obtain rfl := Option.some.inj walked
    rw [grounded _ (List.suffix_refl _)] at free
    cases free
  | cons step steps ih =>
    cases step with
    | up => exact .up (ih grounded.tail (walk?_up.mp walked).2)
    | enter name =>
      obtain ⟨-, admitted, walked⟩ := walk?_enter.mp walked
      cases steps with
      | nil =>
        refine .last admitted (Option.some.inj walked) ?_
        rw [← grown.at_target]
        exact mt isDirectory_iff.mpr (Bool.eq_false_iff.mp free)
      | cons next steps =>
        have there := isDirectory_of_walk? walked
        refine .enter admitted (fun same => ?_) (fun content file => ?_)
          (ih (grounded.enter (isDirectory_iff.mp there)) walked)
        · rw [same, free] at there
          cases there
        · cases (isDirectory_iff.mp there).symm.trans (grown.file_iff.mpr file)

theorem writable_of_write? (grown : ∀ {target}, made.isDirectory target = false → Grown target storage made)
    {content : ByteArray} {saved : Storage} (wrote : made.write? path content = some saved) : storage.Writable path := by
  obtain ⟨target, located, wrote⟩ := Option.bind_eq_some_iff.mp wrote
  split at wrote
  · cases wrote
  next clear =>
    simp only [Bool.or_eq_true, not_or, Bool.not_eq_true] at clear
    by_cases sound : path.isSound = true
    · rw [locate?, if_pos sound] at located
      exact ⟨sound, clear.1, target, leads_of_walk? (grown clear.2) clear.2 grounded_root located⟩
    · rw [locate?, if_neg sound] at located
      cases located

end OnionCircuit.Storage
