import Mathlib.Logic.Relation
import OnionCircuit.Circuit.Call
import OnionCircuit.Relay.Agent
import OnionCircuit.Upkeep.Watch

/-! What the background loops still do once their signal is raised. A loop is told of changes and does not look at the signal
itself, so it goes on for ever when there is nothing to be told. -/

namespace OnionCircuit

namespace Watch
variable {watch after : Watch} {now : Nat}

theorem mem_moves_iff {move : WatchMove} : move ∈ watch.moves now ↔
    watch.ticker.due ≤ now ∧ .round { watch with ticker := watch.ticker.tick now } = move ∨
      watch.signal.hasNews = true ∧
        (if watch.signal.look.2 then .stop else .stay { watch with signal := watch.signal.look.1 }) = move := by
  rw [Watch.moves, List.mem_append, Option.mem_toList, Option.mem_toList, onTick, onNews]
  simp only [Ticker.isDue, decide_eq_true_eq, Option.ite_none_right_eq_some, Option.some.injEq]

theorem moves_round (moves : .round after ∈ watch.moves now) : after.signal = watch.signal := by
  obtain ⟨_, same⟩ | ⟨_, other⟩ := mem_moves_iff.mp moves
  · cases same
    rfl
  · split at other <;> cases other

theorem moves_stay (moves : .stay after ∈ watch.moves now) :
    after.signal.raised = watch.signal.raised ∧ watch.signal.raised = false := by
  obtain ⟨_, other⟩ | ⟨_, same⟩ := mem_moves_iff.mp moves
  · cases other
  · split at same
    · cases same
    next goes =>
      cases same
      rw [Signal.look] at goes ⊢
      split at goes
      next unseen =>
        rw [if_pos unseen]
        exact ⟨rfl, Bool.eq_false_iff.mpr goes⟩
      · exact absurd rfl goes

theorem moves_eq_nil_iff : watch.moves now = [] ↔ now < watch.ticker.due ∧ watch.signal.hasNews = false := by
  rw [Watch.moves, List.append_eq_nil_iff, Option.toList_eq_nil_iff, Option.toList_eq_nil_iff, onTick, onNews]
  simp [Ticker.isDue]

end Watch

/-- What a loop looks after. -/
inductive Ward
  | exchanges (agent : Agent)
  | hops (circuit : Circuit)

/-- What others may make of it. -/
inductive Ward.Becomes : Ward → Ward → Prop
  | exchanges (agent after : Agent) : Becomes (.exchanges agent) (.exchanges after)
  | hops (circuit after : Circuit) : Becomes (.hops circuit) (.hops after)

/-- Without anything to look after. -/
def Ward.cleared : Ward → Ward
  | .exchanges agent => .exchanges { agent with table := ExchangeTable.empty }
  | .hops circuit => .hops { circuit with hops := [] }

theorem Ward.becomes_cleared (ward : Ward) : ward.Becomes ward.cleared := by
  cases ward <;> constructor

namespace Keeper

inductive Act
  | clean
  | ask (wait : Wait)

inductive Phase
  | idle
  /-- A hop was pinged, and has not answered. -/
  | asking (call : Call)
  | ended

end Keeper

/-- A background loop with all that it has done. -/
structure Keeper where
  watch : Watch
  ward : Ward
  phase : Keeper.Phase
  now : Nat
  /-- From when on the signal is raised. -/
  since? : Option Nat
  log : List (Nat × Keeper.Act)

namespace Keeper

def does (keeper : Keeper) (act : Act) : Keeper := { keeper with log := keeper.log ++ [(keeper.now, act)] }

/-- The keeper after a turn of the call that pings the hops. -/
def goOn (keeper : Keeper) (turn : Turn) : Keeper :=
  let keeper := { keeper with ward := .hops turn.circuit }
  match turn.next with
  | .returned _ => { keeper with phase := .idle }
  | .waiting wait call => { keeper.does (.ask wait) with phase := .asking call }

/-- A round of work. A sweep that fails is the end of the loop. -/
def round (keeper : Keeper) (isClosed : LinkRef → Bool) (clock : Micros) : Keeper :=
  let keeper := keeper.does .clean
  match keeper.ward with
  | .exchanges agent =>
    match agent.clean isClosed clock with
    | .ok step => { keeper with ward := .exchanges step.agent, phase := .idle }
    | .error _ => { keeper with phase := .ended }
  | .hops circuit => keeper.goOn (circuit.clean isClosed).1.maintain

def tell (keeper : Keeper) (raised : Bool) : Keeper :=
  { keeper with
    watch := { keeper.watch with signal := keeper.watch.signal.set raised }
    since? := if raised then some (keeper.since?.getD keeper.now) else none }

/-- Nothing happens before time passes. -/
def Rests (keeper : Keeper) : Prop :=
  match keeper.phase with
  | .idle => keeper.watch.moves keeper.now = []
  | .asking _ => keeper.watch.signal.raised = false
  | .ended => True

inductive Step (keeper : Keeper) : Keeper → Prop
  | others {ward : Ward} (becomes : keeper.ward.Becomes ward) : Step keeper { keeper with ward := ward }
  | tell (held : keeper.watch.signal.held = true) (raised : Bool) : Step keeper (keeper.tell raised)
  | release : Step keeper { keeper with watch := { keeper.watch with signal := keeper.watch.signal.release } }
  | pass (rests : keeper.Rests) : Step keeper { keeper with now := keeper.now + 1 }
  | stop (idle : keeper.phase = .idle) (moves : .stop ∈ keeper.watch.moves keeper.now) :
    Step keeper { keeper with phase := .ended }
  | stay (idle : keeper.phase = .idle) {watch : Watch} (moves : .stay watch ∈ keeper.watch.moves keeper.now) :
    Step keeper { keeper with watch := watch }
  | round (idle : keeper.phase = .idle) {watch : Watch} (moves : .round watch ∈ keeper.watch.moves keeper.now)
    (isClosed : LinkRef → Bool) (clock : Micros) : Step keeper ({ keeper with watch := watch }.round isClosed clock)
  | wake {call : Call} (asking : keeper.phase = .asking call) {circuit : Circuit} (ward : keeper.ward = .hops circuit)
    {wake : Wake} (told : wake = .cancelled → keeper.watch.signal.raised = true) {turn : Turn}
    (goes : call.resume circuit wake = some turn) : Step keeper (keeper.goOn turn)

/-- A loop whose first tick is due. -/
def begin (ward : Ward) (ticker : Ticker) (unseen held : Bool) (since? : Option Nat) (now : Nat) : Keeper :=
  ⟨⟨⟨since?.isSome, unseen, held⟩, ticker⟩, ward, .idle, now, since?, []⟩

/-- Nothing was done later than the signal was raised. -/
def Quiet (keeper : Keeper) : Prop := ∀ since ∈ keeper.since?, ∀ act ∈ keeper.log, act.1 ≤ since

/-- A loop that will be told when its signal is raised. Time does not pass before it is, so the moment is still the same. -/
structure Alert (keeper : Keeper) : Prop where
  flag : keeper.watch.signal.raised = keeper.since?.isSome
  past : ∀ act ∈ keeper.log, act.1 ≤ keeper.now
  quiet : keeper.Quiet
  news : ∀ since ∈ keeper.since?, keeper.phase ≠ .ended → since = keeper.now ∧ keeper.watch.signal.hasNews = true

variable {keeper after : Keeper}

theorem Alert.turns (alert : keeper.Alert) (awake : keeper.phase ≠ .ended) (ward : Ward) (phase : Phase) :
    { keeper with ward := ward, phase := phase }.Alert :=
  ⟨alert.flag, alert.past, alert.quiet, fun since member _ => alert.news since member awake⟩

theorem Alert.does (alert : keeper.Alert) (awake : keeper.phase ≠ .ended) (act : Act) : (keeper.does act).Alert := by
  refine ⟨alert.flag, ?_, ?_, alert.news⟩
  · intro other member
    obtain old | new := List.mem_append.mp member
    · exact alert.past other old
    · cases List.mem_singleton.mp new
      exact Nat.le_refl keeper.now
  · intro since member other done
    obtain old | new := List.mem_append.mp done
    · exact alert.quiet since member other old
    · cases List.mem_singleton.mp new
      exact Nat.le_of_eq (alert.news since member awake).1.symm

theorem Alert.goOn (alert : keeper.Alert) (awake : keeper.phase ≠ .ended) (turn : Turn) : (keeper.goOn turn).Alert := by
  rw [Keeper.goOn]
  split
  · exact alert.turns awake _ _
  next wait _ _ => exact (alert.does awake (.ask wait)).turns awake _ _

theorem Alert.round (alert : keeper.Alert) (awake : keeper.phase ≠ .ended) (isClosed : LinkRef → Bool) (clock : Micros) :
    (keeper.round isClosed clock).Alert := by
  have cleaned := alert.does awake .clean
  rw [Keeper.round]
  split
  · split
    · exact cleaned.turns awake _ _
    · exact cleaned.turns awake _ _
  · exact cleaned.goOn awake _

theorem Alert.tell (alert : keeper.Alert) (raised : Bool) : (keeper.tell raised).Alert := by
  cases raised with
  | false => exact ⟨rfl, alert.past, nofun, nofun⟩
  | true =>
    refine ⟨rfl, alert.past, fun since member => ?_, fun since member awake => ⟨?_, rfl⟩⟩
    · cases member
      cases raises : keeper.since? with
      | none => exact alert.past
      | some first => exact alert.quiet first raises
    · cases member
      cases raises : keeper.since? with
      | none => rfl
      | some first => exact (alert.news first raises awake).1

theorem Alert.step (alert : keeper.Alert) (step : keeper.Step after) : after.Alert := by
  -- Only what looks at the signal can lose news: `stay`, which finds it lowered, and `stop`, after which nothing is done.
  obtain ⟨flag, past, quiet, news⟩ := id alert
  cases step with
  | others => exact ⟨flag, past, quiet, news⟩
  | tell _ raised => exact alert.tell raised
  | release => exact ⟨flag, past, quiet, fun since member awake => ⟨(news since member awake).1, Bool.or_true _⟩⟩
  | pass rests =>
    refine ⟨flag, fun act member => Nat.le_succ_of_le (past act member), quiet, fun since member awake => ?_⟩
    have told := (news since member awake).2
    have raised : keeper.watch.signal.raised = true := flag.trans (Option.isSome_of_mem member)
    rw [Rests] at rests
    split at rests
    · rw [(Watch.moves_eq_nil_iff.mp rests).2] at told
      cases told
    · rw [raised] at rests
      cases rests
    next done => exact absurd done awake
  | stop => exact ⟨flag, past, quiet, fun _ _ done => absurd rfl done⟩
  | stay idle moves =>
    obtain ⟨same, calm⟩ := Watch.moves_stay moves
    refine ⟨same.trans flag, past, quiet, fun since member _ => ?_⟩
    rw [calm, Option.isSome_of_mem member] at flag
    cases flag
  | round idle moves isClosed clock =>
    have awake : keeper.phase ≠ .ended := by rw [idle]; nofun
    have same := Watch.moves_round moves
    apply Alert.round
    · exact ⟨by rw [same]; exact flag, past, quiet, fun since member _ => by rw [same]; exact news since member awake⟩
    · exact awake
  | wake asking ward told goes =>
    apply alert.goOn
    rw [asking]
    nofun

theorem Alert.run (alert : keeper.Alert) (run : Relation.ReflTransGen Step keeper after) : after.Alert := by
  induction run with
  | refl => exact alert
  | tail _ step ih => exact ih.step step

def cleared (keeper : Keeper) : Keeper := { keeper with ward := keeper.ward.cleared }

/-- The keeper after a round in which there is nothing to look after. -/
def idleRound (keeper : Keeper) : Keeper :=
  { keeper.cleared with watch := { keeper.watch with ticker := keeper.watch.ticker.tick keeper.now } }.does .clean

theorem round_cleared (idle : keeper.phase = .idle) (isClosed : LinkRef → Bool) (clock : Micros) :
    keeper.cleared.round isClosed clock = keeper.cleared.does .clean := by
  obtain ⟨watch, ward, phase, now, since?, log⟩ := keeper
  cases idle
  cases ward <;> rfl

theorem idleRound_run (idle : keeper.phase = .idle) (due : keeper.watch.ticker.due ≤ keeper.now) :
    Relation.ReflTransGen Step keeper keeper.idleRound := by
  have clears : keeper.Step keeper.cleared := .others keeper.ward.becomes_cleared
  have still : keeper.cleared.phase = .idle := idle
  let ticked := { keeper with watch := { keeper.watch with ticker := keeper.watch.ticker.tick keeper.now } }
  have moves : .round ticked.watch ∈ keeper.cleared.watch.moves keeper.cleared.now :=
    Watch.mem_moves_iff.mpr (Or.inl ⟨due, rfl⟩)
  have rounds : keeper.cleared.Step (ticked.cleared.round (fun _ => false) 0) := .round still moves _ _
  have quiet : ticked.phase = .idle := idle
  rw [round_cleared quiet] at rounds
  exact (Relation.ReflTransGen.single clears).tail rounds

/-- Time passes up to the next tick, if there is nothing to be told. -/
theorem wait_run (idle : keeper.phase = .idle) (calm : keeper.watch.signal.hasNews = false) {time : Nat}
    (past : keeper.now ≤ time) (ahead : time ≤ keeper.watch.ticker.due) :
    Relation.ReflTransGen Step keeper { keeper with now := time } := by
  induction past with
  | refl => exact .refl
  | step past ih =>
    refine (ih (Nat.le_of_succ_le ahead)).tail (.pass ?_)
    rw [Rests, idle]
    exact Watch.moves_eq_nil_iff.mpr ⟨ahead, calm⟩

section
variable (ward : Ward) {period now : Nat} {ticker : Ticker} {unseen held : Bool} {since? : Option Nat}

theorem alert_begin
    (told : ∀ since ∈ since?, since = now ∧ (Signal.mk since?.isSome unseen held).hasNews = true) :
    (begin ward ticker unseen held since? now).Alert :=
  ⟨rfl, nofun, fun _ _ => nofun, fun since member _ => told since member⟩

/-- A loop does its first round late, if the signal is raised before it starts, and its second one, if it is not told. -/
theorem late_begin (starts : Ticker.start period now = .ok ticker) {since : Nat} (member : since ∈ since?)
    (past : since ≤ now)
    (untold : ¬ (since = now ∧ (Signal.mk since?.isSome unseen held).hasNews = true)) :
    ∃ keeper, Relation.ReflTransGen Step (begin ward ticker unseen held since? now) keeper ∧ ¬ keeper.Quiet := by
  obtain ⟨positive, rfl⟩ : 0 < period ∧ Ticker.mk period now = ticker := by
    rw [Ticker.start] at starts
    split at starts
    · cases starts
    next positive => exact ⟨Nat.pos_of_ne_zero positive, Except.ok.inj starts⟩
  let fresh := begin ward ⟨period, now⟩ unseen held since? now
  have first : Relation.ReflTransGen Step fresh fresh.idleRound := idleRound_run rfl (Nat.le_refl now)
  obtain before | rfl := Nat.lt_or_eq_of_le past
  · refine ⟨_, first, fun quiet => ?_⟩
    have early := quiet since member (now, .clean) List.mem_cons_self
    exact absurd before (Nat.not_lt.mpr early)
  · have calm : fresh.idleRound.watch.signal.hasNews = false := Bool.eq_false_iff.mpr fun told => untold ⟨rfl, told⟩
    have due : fresh.idleRound.watch.ticker.due = since + period := by
      have timely : ¬ since + Ticker.tolerance < since := Nat.not_lt.mpr (Nat.le_add_right _ _)
      simp only [fresh, idleRound, does, begin, Ticker.tick, timely, if_false]
    let later := { fresh.idleRound with now := since + period }
    have waits : Relation.ReflTransGen Step fresh.idleRound later :=
      wait_run rfl calm (Nat.le_add_right since period) (Nat.le_of_eq due.symm)
    have second : Relation.ReflTransGen Step later later.idleRound := idleRound_run rfl (Nat.le_of_eq due)
    refine ⟨_, (first.trans waits).trans second, fun quiet => ?_⟩
    have early := quiet since member (since + period, .clean) (List.mem_append_right _ List.mem_cons_self)
    exact absurd early (Nat.not_le.mpr (Nat.lt_add_of_pos_right positive))

end

/-- A loop with any period does nothing later than its signal was raised, whatever others do meanwhile, just when the signal is
not raised before the loop starts, or only at that moment and so that the loop is told. -/
theorem quiet_iff_told (ward : Ward) {period start : Nat} {ticker : Ticker} (starts : Ticker.start period start = .ok ticker)
    (unseen held : Bool) (since? : Option Nat) (past : ∀ since ∈ since?, since ≤ start) :
    (∀ keeper, Relation.ReflTransGen Step (begin ward ticker unseen held since? start) keeper →
      ∀ since ∈ keeper.since?, ∀ act ∈ keeper.log, act.1 ≤ since) ↔
      ∀ since ∈ since?, since = start ∧ (unseen = true ∨ held = false) := by
  have news : (Signal.mk since?.isSome unseen held).hasNews = true ↔ unseen = true ∨ held = false := by
    rw [Signal.hasNews, Bool.or_eq_true, Bool.not_eq_true']
  constructor
  · intro quiet since member
    apply Decidable.byContradiction
    intro untold
    rw [← news] at untold
    obtain ⟨keeper, run, late⟩ := late_begin ward starts member (past since member) untold
    exact late (quiet keeper run)
  · intro told keeper run
    have alert : (begin ward ticker unseen held since? start).Alert := by
      apply alert_begin
      intro since member
      rw [news]
      exact told since member
    exact (alert.run run).quiet

/-- The signal is raised just when the loop starts, and the loop has not seen it. -/
theorem quiet_when_told :
    let ward : Ward := .hops (Circuit.start .outgoing {})
    Ticker.start 10 3 = .ok ⟨10, 3⟩ ∧ (∀ since ∈ some 3, since ≤ 3) ∧
      ∀ keeper, Relation.ReflTransGen Step (begin ward ⟨10, 3⟩ true true (some 3) 3) keeper →
        ∀ since ∈ keeper.since?, ∀ act ∈ keeper.log, act.1 ≤ since := by
  intro ward
  have starts : Ticker.start 10 3 = .ok ⟨10, 3⟩ := rfl
  have past : ∀ since ∈ some 3, since ≤ 3 := by
    intro since member
    cases member
    exact Nat.le_refl 3
  refine ⟨starts, past, (quiet_iff_told ward starts true true (some 3) past).mpr ?_⟩
  intro since member
  cases member
  exact ⟨rfl, Or.inl rfl⟩

/-- The signal is raised when the loop starts, and the loop takes it for seen. -/
theorem not_quiet_when_seen :
    let ward : Ward := .hops (Circuit.start .outgoing {})
    Ticker.start 10 0 = .ok ⟨10, 0⟩ ∧
      ¬ ∀ keeper, Relation.ReflTransGen Step (begin ward ⟨10, 0⟩ false true (some 0) 0) keeper →
        ∀ since ∈ keeper.since?, ∀ act ∈ keeper.log, act.1 ≤ since := by
  intro ward
  have starts : Ticker.start 10 0 = .ok ⟨10, 0⟩ := rfl
  refine ⟨starts, fun quiet => ?_⟩
  have untold : ¬ (0 = 0 ∧ (Signal.mk (some 0).isSome false true).hasNews = true) := nofun
  obtain ⟨keeper, run, late⟩ := late_begin ward starts (Option.mem_some_self 0) (Nat.le_refl 0) untold
  exact late (quiet keeper run)

end Keeper
end OnionCircuit
