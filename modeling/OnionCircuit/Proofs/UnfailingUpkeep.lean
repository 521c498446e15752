import OnionCircuit.Proofs.CallProgress
import OnionCircuit.Proofs.SavedSettings
import OnionCircuit.Proofs.TearDownOrder
import OnionCircuit.Proofs.UpkeepRounds

/-! Which settings let a circuit be looked after. Nothing that is loaded about circuits is refused, and calls on a circuit come
to their end whatever it is; but the loop that looks after one does not start with an interval of zero. -/

namespace OnionCircuit

/-- The loop that looks after a circuit, from its first moment on. -/
def Circuit.upkeep (circuit : Circuit) (pacing : Pacing) (unseen held : Bool) (since? : Option Nat) (now : Nat) :
    Except ZeroPeriod Keeper :=
  (Ticker.start (pacing.lasts circuit.config.maintainInterval) now).map fun ticker =>
    Keeper.begin (.hops circuit) ticker unseen held since? now

/-- Every circuit of this configuration can be looked after, whatever the signal is when that begins, and no round fails. -/
def CircuitConfig.Upheld (config : CircuitConfig) (pacing : Pacing) : Prop :=
  ∀ circuit : Circuit, circuit.config = config → ∀ unseen held since? now,
    ∃ first, circuit.upkeep pacing unseen held since? now = .ok first ∧
      ∀ keeper rounds, first.Noted keeper rounds → keeper.Unfailing (pacing.lasts config.maintainInterval) now rounds

theorem Circuit.upkeep_refused {circuit : Circuit} (zero : circuit.config.maintainInterval = 0) (pacing : Pacing)
    (unseen held : Bool) (since? : Option Nat) (now : Nat) :
    circuit.upkeep pacing unseen held since? now = .error ⟨⟩ := by
  rw [upkeep, zero, pacing.none]
  rfl

theorem CircuitConfig.upheld_iff {pacing : Pacing} {config : CircuitConfig}
    (passes : ∀ milliseconds, pacing.lasts milliseconds = 0 → milliseconds = 0) :
    config.Upheld pacing ↔ config.maintainInterval ≠ 0 := by
  constructor
  · intro upheld zero
    obtain ⟨first, starts, _⟩ := upheld (Circuit.start .outgoing config) rfl false true none 0
    cases starts.symm.trans (Circuit.upkeep_refused zero pacing false true none 0)
  · intro positive circuit same unseen held since? now
    subst same
    have period : pacing.lasts circuit.config.maintainInterval ≠ 0 := mt (passes _) positive
    have starts : Ticker.start (pacing.lasts circuit.config.maintainInterval) now =
      .ok ⟨pacing.lasts circuit.config.maintainInterval, now⟩ := if_neg period
    refine ⟨_, by rw [Circuit.upkeep, starts]; rfl, fun keeper rounds noted => ?_⟩
    exact (noted.onSchedule (Keeper.begin_onSchedule circuit unseen held since?)).unfailing

/-- A tear down that nobody else touches is over, or it goes on. -/
theorem Circuit.tearDown_goes {circuit : Circuit} {pacing : Pacing} {fate : Fate} {start : Nat} {solo : Solo}
    (run : Relation.ReflTransGen (Solo.Step pacing fate) (Solo.begin circuit.close start) solo) :
    solo.turn.next = .returned .closed ∨ ∃ next, solo.Step pacing fate next := by
  obtain done | ⟨_, _, paused⟩ := underway_run run
  · exact Or.inl done.returned
  · exact Or.inr paused.goes

namespace Settings

def solePath : Path := ⟨["settings.json"]⟩

/-- A storage with one file. -/
def soleFile (text : List Char) : Storage := Storage.empty.insert ["settings.json"] (.file (String.ofList text).toUTF8)

theorem find?_soleFile (text : List Char) : (soleFile text).find? solePath = some (.file (String.ofList text).toUTF8) := by
  have located : (soleFile text).locate? solePath = some ["settings.json"] := by
    rw [Storage.locate?, if_pos (by decide)]
    exact Storage.walk?_enter.mpr ⟨rfl, by decide, rfl⟩
  have stands : Storage.entry? (soleFile text) ["settings.json"] = some (.file (String.ofList text).toUTF8) := by
    rw [soleFile, Storage.entry?_insert (List.cons_ne_nil _ _), if_pos rfl]
  exact Storage.find?_file (by decide) located stands

/-- There is a file for every configuration of circuits. -/
theorem exists_load (config : CircuitConfig) :
    ∃ storage path settings, load storage path = .ok settings ∧ settings.circuit = config :=
  ⟨_, _, _, load_saved (find?_soleFile (text { circuit := config })), rfl⟩

/-- Whatever settings were loaded, all calls on a circuit of their configuration come to their end, and a tear down that nobody
else touches is never held up. The loop that looks after the circuit makes its rounds until it is told to stop just if the
interval is not zero; and there are files for all intervals. -/
theorem upkeep_unfailing_iff {pacing : Pacing} (passes : ∀ milliseconds, pacing.lasts milliseconds = 0 → milliseconds = 0) :
    (∀ config : CircuitConfig, ∃ storage path settings, load storage path = .ok settings ∧ settings.circuit = config) ∧
    ∀ storage path settings, load storage path = .ok settings →
      (∀ kind session, Session.Reachable kind settings.circuit session → session.Unstuck) ∧
      (∀ circuit : Circuit, circuit.config = settings.circuit → ∀ fate start solo,
        Relation.ReflTransGen (Solo.Step pacing fate) (Solo.begin circuit.close start) solo →
          solo.turn.next = .returned .closed ∨ ∃ next, solo.Step pacing fate next) ∧
      (settings.circuit.Upheld pacing ↔ settings.circuit.maintainInterval ≠ 0) := by
  refine ⟨exists_load, fun storage path settings _ => ⟨?_, ?_, ?_⟩⟩
  · exact fun kind session reached => reached.unstuck
  · exact fun circuit _ fate start solo run => Circuit.tearDown_goes run
  · exact CircuitConfig.upheld_iff passes

/-- A circuit with more hops than its settings allow, of which the second is dead when the first round begins. -/
theorem upkeep_unfailing_first :
    let config : CircuitConfig := { maxRelays := 0, closeDelay := 18446744073709551615, maintainInterval := 3 }
    let pacing : Pacing := ⟨UInt64.toNat, rfl⟩
    let circuit := (Circuit.start .outgoing config).withHops [Circuit.numberedHop 1, Circuit.numberedHop 2]
    load (soleFile (text { circuit := config })) solePath = .ok { circuit := config, source := some solePath } ∧
    (∀ milliseconds, pacing.lasts milliseconds = 0 → milliseconds = 0) ∧ circuit.config = config ∧
    ∃ first next round, circuit.upkeep pacing false true none 7 = .ok first ∧ first.Step next ∧
      next.Unfailing 3 7 [round] ∧ round.due = 7 ∧ round.began = 7 ∧ round.left = [Circuit.numberedHop 1] := by
  intro config pacing circuit
  have loaded := load_saved (find?_soleFile (text { circuit := config }))
  have passes : ∀ milliseconds, pacing.lasts milliseconds = 0 → milliseconds = 0 := fun _ none => UInt64.toNat.inj none
  obtain ⟨_, _, upheld⟩ := (upkeep_unfailing_iff passes).2 _ _ _ loaded
  obtain ⟨first, starts, unfailing⟩ := upheld.mpr (by decide) circuit rfl false true none 7
  have begun := starts
  cases begun
  obtain ⟨next, round, step, noted, due, began, left⟩ :=
    (unfailing _ _ .start).tick rfl (Nat.le_refl 7) fun link => link = (Circuit.numberedHop 2).link.ref
  have unfailing := unfailing _ _ (.step .start step)
  rw [noted] at unfailing
  exact ⟨loaded, passes, rfl, _, next, round, starts, step, unfailing, due, began, left⟩

/-- An interval of zero, and nothing else. -/
def restlessMembers : List (List TextUnit × Json) :=
  [(TextUnit.ofChars "circuit".toList, .object [(TextUnit.ofChars "maintain_interval_ms".toList, .number (.ofInt 0))])]

def restlessText : List Char := (Json.object restlessMembers).pretty 0

/-- A file that is loaded, and no loop looks after a circuit of its configuration. -/
theorem not_upkeep_unfailing :
    load (soleFile restlessText) solePath = .ok { circuit := { maintainInterval := 0 }, source := some solePath } ∧
    (∀ circuit : Circuit, circuit.config = { maintainInterval := 0 } → ∀ pacing unseen held since? now,
      circuit.upkeep pacing unseen held since? now = .error ⟨⟩) ∧
    ¬ ∀ storage path settings, load storage path = .ok settings → settings.circuit.Upheld ⟨UInt64.toNat, rfl⟩ := by
  have proper : Json.Proper (.object restlessMembers) := by
    simpa [Json.Proper, restlessMembers, Json.tokens, Json.itemTokens, Json.memberTokens, Json.TokenProper, TextUnit.ofChars,
      Json.UnitProper, Numeral.ofInt] using Json.isTail_nil
  have read : shape.read? (.object restlessMembers) = some { circuit := { maintainInterval := 0 } } := by decide
  have loaded : load (soleFile restlessText) solePath =
      .ok { circuit := { maintainInterval := 0 }, source := some solePath } := by
    rw [load_spelled (find?_soleFile restlessText) (Json.spells_pretty proper 0), read]
  have refused (circuit : Circuit) (same : circuit.config = { maintainInterval := 0 }) :=
    Circuit.upkeep_refused (congrArg CircuitConfig.maintainInterval same)
  refine ⟨loaded, refused, fun upheld => ?_⟩
  obtain ⟨first, starts, _⟩ := upheld _ _ _ loaded (Circuit.start .outgoing { maintainInterval := 0 }) rfl false true none 0
  cases starts.symm.trans (refused _ rfl _ false true none 0)

end Settings
end OnionCircuit
