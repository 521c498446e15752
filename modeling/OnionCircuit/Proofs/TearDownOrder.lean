import Mathlib.Data.List.Induction
import Mathlib.Logic.Relation
import OnionCircuit.Proofs.CallSchedule
import OnionCircuit.Proofs.Journey
import OnionCircuit.Upkeep.Signal

/-! Tearing down a circuit while nobody else touches it. Its hops are closed from the outside inwards, a pause apart, until a
signal is raised; from then on what is left is closed without a pause. -/

namespace OnionCircuit

/-- How long a pause of so many milliseconds takes: just as long, unless a timer cannot wait so long. -/
structure Pacing where
  lasts : UInt64 → Nat
  none : lasts 0 = 0

/-- When a signal is raised, and when the last one who could raise it is gone. -/
structure Fate where
  raised? : Option Nat
  released? : Option Nat
  order : ∀ raised ∈ raised?, ∀ released ∈ released?, raised ≤ released

namespace Fate

def signal (fate : Fate) (now : Nat) : Signal :=
  let signal : Signal := if fate.raised?.any (· ≤ now) then Signal.set {} true else {}
  if fate.released?.any (· ≤ now) then signal.release else signal

/-- The end of a pause. Who pauses goes on at once when the signal is raised, or if it already is; where it is raised just when
the pause is over, either may be noticed. That nobody is left to raise it ends no pause. -/
inductive Ends (fate : Fate) (since length : Nat) : Nat → Wake → Prop
  | elapsed (calm : ∀ now, since ≤ now → now < since + length → (fate.signal now).raised = false) :
    fate.Ends since length (since + length) .ready
  | cut {now : Nat} (after : since ≤ now) (within : now ≤ since + length) (raised : (fate.signal now).raised = true)
    (calm : ∀ before, since ≤ before → before < now → (fate.signal before).raised = false) :
    fate.Ends since length now .cancelled

/-- When something is done that has a time of its own, but is not put off once the signal is raised. -/
def hurry (fate : Fate) (start time : Nat) : Nat :=
  match fate.raised? with
  | none => time
  | some raised => min time (max start raised)

theorem raised_signal (fate : Fate) (now : Nat) : (fate.signal now).raised = fate.raised?.any (· ≤ now) := by
  unfold signal
  cases fate.raised?.any (· ≤ now) <;> cases fate.released?.any (· ≤ now) <;> rfl

variable {fate : Fate} {start since length now : Nat} {wake : Wake}

theorem calm_iff : (fate.signal now).raised = false ↔ ∀ raised ∈ fate.raised?, now < raised := by
  rw [raised_signal, Option.any_eq_false]
  simp only [decide_eq_false_iff_not, Nat.not_le, Option.mem_def]

theorem raised_iff : (fate.signal now).raised = true ↔ ∃ raised ∈ fate.raised?, raised ≤ now := by
  rw [raised_signal, Option.any_eq_true]
  simp only [decide_eq_true_eq, Option.mem_def]

theorem hurry_eq_iff {time : Nat} : fate.hurry start time = time ↔ ∀ raised ∈ fate.raised?, time ≤ max start raised := by
  obtain ⟨_ | raised, _, _⟩ := fate
  · exact iff_of_true rfl fun _ member => nomatch member
  · constructor
    · rintro same _ ⟨⟩
      exact Nat.le_trans (Nat.le_of_eq same.symm) (Nat.min_le_right _ _)
    · exact fun before => Nat.min_eq_left (before raised rfl)

theorem hurry_start : fate.hurry start start = start := hurry_eq_iff.mpr fun raised _ => start.le_max_left raised

theorem Ends.ready_or_cancelled (ends : fate.Ends since length now wake) : wake = .ready ∨ wake = .cancelled := by
  cases ends with
  | elapsed => exact Or.inl rfl
  | cut => exact Or.inr rfl

/-- Every pause ends. -/
theorem ends_exists (fate : Fate) (since length : Nat) : ∃ now wake, fate.Ends since length now wake := by
  by_cases loud : ∃ now, since ≤ now ∧ now < since + length ∧ (fate.signal now).raised = true
  · obtain ⟨now, after, within, loud⟩ := loud
    obtain ⟨raised, member, early⟩ := raised_iff.mp loud
    refine ⟨max since raised, .cancelled, .cut (Nat.le_max_left _ _) (by omega) ?_ ?_⟩
    · exact raised_iff.mpr ⟨raised, member, Nat.le_max_right _ _⟩
    · intro before begun ahead
      apply calm_iff.mpr
      intro other same
      cases Option.mem_unique same member
      omega
  · refine ⟨_, .ready, .elapsed fun now after within => ?_⟩
    rw [Bool.eq_false_iff]
    exact fun raised => loud ⟨now, after, within, raised⟩

/-- A pause that begins on time and is not cut is over on time. -/
theorem Ends.over_on_time (ends : fate.Ends since length now .ready) (begun : start ≤ since)
    (timely : fate.hurry start since = since) : now = since + length ∧ fate.hurry start now = now := by
  cases ends with
  | elapsed calm =>
    refine ⟨rfl, hurry_eq_iff.mpr fun raised member => ?_⟩
    have before := hurry_eq_iff.mp timely raised member
    cases length with
    | zero => exact before
    | succ rest =>
      have after := calm_iff.mp (calm (since + rest) (by omega) (by omega)) raised member
      omega

/-- When a pause is cut, what would come later comes now. -/
theorem Ends.cut_hurries (ends : fate.Ends since length now .cancelled) (begun : start ≤ since)
    (timely : fate.hurry start since = since) {time : Nat} (later : since + length ≤ time) : fate.hurry start time = now := by
  cases ends with
  | cut after within loud calm =>
    obtain ⟨raised, member, early⟩ := raised_iff.mp loud
    have before := hurry_eq_iff.mp timely raised member
    have first : max start raised = now := by
      obtain same | past := Nat.eq_or_lt_of_le after
      · omega
      · have quiet := calm_iff.mp (calm (now - 1) (by omega) (by omega)) raised member
        omega
    have known : fate.raised? = some raised := member
    simp only [hurry, known, first]
    omega

end Fate

/-- A call that is alone with its circuit, after one of its turns. -/
structure Solo where
  turn : Turn
  now : Nat
  log : List (Nat × CircuitEffect)

namespace Solo

def begin (turn : Turn) (now : Nat) : Solo := ⟨turn, now, turn.effects.map (now, ·)⟩

def goOn (solo : Solo) (turn : Turn) (now : Nat) : Solo := ⟨turn, now, solo.log ++ turn.effects.map (now, ·)⟩

/-- The end of a pause, and the turn after it. -/
inductive Step (pacing : Pacing) (fate : Fate) (solo : Solo) : Solo → Prop
  | pause {milliseconds : UInt64} {call : Call} {now : Nat} {wake : Wake} {turn : Turn}
    (waits : solo.turn.next = .waiting (.pause milliseconds) call)
    (ends : fate.Ends solo.now (pacing.lasts milliseconds) now wake)
    (goes : call.resume solo.turn.circuit wake = some turn) : Step pacing fate solo (solo.goOn turn now)

end Solo

namespace Circuit

theorem withHops_withHops (circuit : Circuit) (hops others : List Hop) :
    (circuit.withHops hops).withHops others = circuit.withHops others := rfl

/-- Closing hops, the outermost first: the circuit ends before a hop when its link is closed. -/
def cuts (circuit : Circuit) : List Hop → List CircuitEffect
  | [] => []
  | hop :: inner => ⟨.closeLink hop.link.ref, circuit.withHops inner.reverse⟩ :: circuit.cuts inner

def ending (circuit : Circuit) : CircuitEffect := ⟨.closeRelayed circuit.kind, circuit.withHops []⟩

theorem cuts_withHops (circuit : Circuit) (hops rest : List Hop) : (circuit.withHops hops).cuts rest = circuit.cuts rest := by
  induction rest with
  | nil => rfl
  | cons hop inner ih => simp only [cuts, withHops_withHops, ih]

@[simp] theorem length_cuts (circuit : Circuit) (rest : List Hop) : (circuit.cuts rest).length = rest.length := by
  induction rest with
  | nil => rfl
  | cons hop inner ih => simp only [cuts, List.length_cons, ih]

theorem cuts_eq (circuit : Circuit) (hops : List Hop) :
    circuit.cuts hops.reverse = hops.reverse.zipIdx.map fun (hop, before) =>
      ⟨.closeLink hop.link.ref, circuit.withHops (hops.take (hops.length - 1 - before))⟩ := by
  induction hops using List.reverseRecOn with
  | nil => rfl
  | append_singleton inner hop ih =>
    rw [List.reverse_append, List.reverse_singleton, List.singleton_append, cuts, ih, List.zipIdx_cons, List.map_cons,
      List.zipIdx_succ, List.map_map]
    congr 1
    · simp
    · apply List.map_congr_left
      rintro ⟨other, before⟩ _
      have fewer : (inner ++ [hop]).length - 1 - (before + 1) = inner.length - 1 - before := by
        rw [List.length_append, List.length_singleton]
        omega
      simp only [Function.comp_apply, fewer]
      rw [List.take_append_of_le_length (by omega)]

variable {circuit : Circuit} {hop : Hop} {inner rest : List Hop} {hurried : Bool}

private theorem take_inner {hops : List Hop} (ends : hops = (hop :: inner).reverse) :
    hops.take inner.length = inner.reverse := by
  rw [ends, List.reverse_cons, ← List.length_reverse, List.take_left]

theorem tearDown_pauses (ends : circuit.hops = (hop :: inner).reverse) (more : inner ≠ []) :
    circuit.tearDown false (hop :: inner) =
      ⟨circuit.withHops inner.reverse, [⟨.closeLink hop.link.ref, circuit.withHops inner.reverse⟩],
        .waiting (.pause circuit.config.closeDelay) (.closing inner)⟩ := by
  have waits : (inner.isEmpty || false) = false := by
    rw [Bool.or_false, List.isEmpty_eq_false_iff]
    exact more
  simp only [tearDown, take_inner ends, waits, Bool.false_eq_true, if_false]
  rfl

theorem tearDown_returns (ends : circuit.hops = rest.reverse) (quick : hurried = true ∨ rest.length ≤ 1) :
    circuit.tearDown hurried rest = ⟨circuit.withHops [], circuit.cuts rest ++ [circuit.ending], .returned .closed⟩ := by
  induction rest generalizing circuit with
  | nil => rfl
  | cons hop inner ih =>
    have goes : (inner.isEmpty || hurried) = true := by
      obtain rfl | short := quick
      · exact Bool.or_true _
      · have none : inner = [] := List.length_eq_zero_iff.mp (by simpa using short)
        rw [none]
        rfl
    have inside := ih (hops_withHops circuit inner.reverse) (quick.imp_right fun short => Nat.le_of_succ_le short)
    simp only [tearDown, take_inner ends, goes, if_true, inside, cuts, cuts_withHops]
    rfl

theorem tearDown_withHops (circuit : Circuit) (hurried : Bool) (rest : List Hop) :
    (circuit.withHops circuit.hops).tearDown hurried rest = circuit.tearDown hurried rest := by
  cases rest <;> rfl

theorem tearDown_acts (circuit : Circuit) (hurried : Bool) (rest : List Hop) :
    (circuit.tearDown hurried rest).effects ≠ [] := by
  cases rest with
  | nil => exact List.cons_ne_nil _ _
  | cons hop inner =>
    rw [tearDown]
    split
    · exact List.cons_ne_nil _ _
    · exact List.cons_ne_nil _ _

section
variable (circuit : Circuit) (pacing : Pacing) (fate : Fate) (start : Nat)

/-- When a hop is closed before which so many others are. -/
def moment (before : Nat) : Nat := fate.hurry start (start + before * pacing.lasts circuit.config.closeDelay)

/-- Some effects with their times, after so many others. -/
def dated (before : Nat) (effects : List CircuitEffect) : List (Nat × CircuitEffect) :=
  (effects.zipIdx before).map fun (effect, before) => (circuit.moment pacing fate start before, effect)

/-- What is left to do in a tear down, and when, after so many hops. -/
def agenda (before : Nat) (rest : List Hop) : List (Nat × CircuitEffect) :=
  circuit.dated pacing fate start before (circuit.cuts rest) ++
    [(circuit.moment pacing fate start (circuit.size - 1), circuit.ending)]

structure Paused (rest : List Hop) (before : Nat) (solo : Solo) : Prop where
  more : rest ≠ []
  front : circuit.hops.take rest.length = rest.reverse
  count : before + 1 + rest.length = circuit.size
  cut : solo.turn.circuit = circuit.withHops rest.reverse
  waits : solo.turn.next = .waiting (.pause circuit.config.closeDelay) (.closing rest)
  time : solo.now = start + before * pacing.lasts circuit.config.closeDelay
  timely : fate.hurry start solo.now = solo.now
  log : solo.log ++ circuit.agenda pacing fate start (before + 1) rest = circuit.agenda pacing fate start 0 circuit.hops.reverse

structure TornDown (solo : Solo) : Prop where
  cut : solo.turn.circuit = circuit.withHops []
  returned : solo.turn.next = .returned .closed
  log : solo.log = circuit.agenda pacing fate start 0 circuit.hops.reverse

/-- A tear down that has begun waits for the end of a pause, or it is over. -/
def Underway (solo : Solo) : Prop :=
  circuit.TornDown pacing fate start solo ∨ ∃ rest before, circuit.Paused pacing fate start rest before solo

end

section
variable {circuit : Circuit} {pacing : Pacing} {fate : Fate} {start : Nat} {solo next : Solo} {before now : Nat}

theorem dated_cons (effect : CircuitEffect) (others : List CircuitEffect) :
    circuit.dated pacing fate start before (effect :: others) =
      (circuit.moment pacing fate start before, effect) :: circuit.dated pacing fate start (before + 1) others := rfl

theorem dated_even {effects : List CircuitEffect}
    (even : ∀ later, before ≤ later → later < before + effects.length → circuit.moment pacing fate start later = now) :
    circuit.dated pacing fate start before effects = effects.map (now, ·) := by
  induction effects generalizing before with
  | nil => rfl
  | cons effect others ih =>
    have first := even before (Nat.le_refl _) (by simp)
    have behind : circuit.dated pacing fate start (before + 1) others = others.map (now, ·) := by
      apply ih
      intro later after within
      exact even later (by omega) (by rw [List.length_cons]; omega)
    rw [dated_cons, List.map_cons, behind, first]

section
variable {log : List (Nat × CircuitEffect)}

/-- A turn that closes all hops that are left. -/
theorem tornDown_tearDown
    (whole : log ++ circuit.agenda pacing fate start before rest = circuit.agenda pacing fate start 0 circuit.hops.reverse)
    (quick : hurried = true ∨ rest.length ≤ 1)
    (even : ∀ later, before ≤ later → later < before + rest.length → circuit.moment pacing fate start later = now)
    (last : circuit.moment pacing fate start (circuit.size - 1) = now) :
    let turn := (circuit.withHops rest.reverse).tearDown hurried rest
    circuit.TornDown pacing fate start ⟨turn, now, log ++ turn.effects.map (now, ·)⟩ := by
  intro turn
  have returns := tearDown_returns (hops_withHops circuit rest.reverse) quick
  have times : circuit.dated pacing fate start before (circuit.cuts rest) = (circuit.cuts rest).map (now, ·) := by
    apply dated_even
    rw [length_cuts]
    exact even
  refine ⟨?_, ?_, ?_⟩
  · simp only [turn, returns, withHops_withHops]
  · simp only [turn, returns]
  · rw [← whole, agenda, times, last]
    simp only [turn, returns, cuts_withHops, List.map_append, List.map_cons, List.map_nil]
    rfl

/-- A turn that closes one hop of several. -/
theorem paused_tearDown (more : inner ≠ []) (front : circuit.hops.take (hop :: inner).length = (hop :: inner).reverse)
    (count : before + (hop :: inner).length = circuit.size)
    (whole : log ++ circuit.agenda pacing fate start before (hop :: inner) =
      circuit.agenda pacing fate start 0 circuit.hops.reverse)
    (time : now = start + before * pacing.lasts circuit.config.closeDelay) (timely : fate.hurry start now = now) :
    let turn := (circuit.withHops (hop :: inner).reverse).tearDown false (hop :: inner)
    circuit.Paused pacing fate start inner before ⟨turn, now, log ++ turn.effects.map (now, ·)⟩ := by
  intro turn
  have pauses := tearDown_pauses (hops_withHops circuit (hop :: inner).reverse) more
  have inside := take_inner front
  rw [List.take_take, List.length_cons, Nat.min_eq_left (Nat.le_succ _)] at inside
  have due : circuit.moment pacing fate start before = now := by rw [moment, ← time, timely]
  refine ⟨more, inside, ?_, ?_, ?_, time, timely, ?_⟩
  · rw [List.length_cons] at count
    omega
  · simp only [turn, pauses, withHops_withHops]
  · simp only [turn, pauses]
    rfl
  · rw [← whole]
    simp only [turn, pauses, agenda, cuts, dated_cons, due, List.append_assoc]
    rfl

/-- The turn that closes the outermost of the hops that are left. In a hurry it closes all of them. -/
theorem underway_tearDown (front : circuit.hops.take rest.length = rest.reverse) (count : before + rest.length = circuit.size)
    (none : rest = [] → before = 0)
    (whole : log ++ circuit.agenda pacing fate start before rest = circuit.agenda pacing fate start 0 circuit.hops.reverse)
    (time : circuit.moment pacing fate start before = now)
    (calm : hurried = false → now = start + before * pacing.lasts circuit.config.closeDelay)
    (hurry : hurried = true → ∀ later, before ≤ later → circuit.moment pacing fate start later = now) :
    let turn := (circuit.withHops rest.reverse).tearDown hurried rest
    circuit.Underway pacing fate start ⟨turn, now, log ++ turn.effects.map (now, ·)⟩ := by
  intro turn
  cases hurried with
  | true =>
    have past : before ≤ circuit.size - 1 := by
      cases rest with
      | nil => rw [none rfl]; exact Nat.zero_le _
      | cons hop inner => rw [List.length_cons] at count; omega
    exact Or.inl (tornDown_tearDown whole (Or.inl rfl) (fun later after _ => hurry rfl later after) (hurry rfl _ past))
  | false =>
    cases rest with
    | nil =>
      have last : circuit.size - 1 = before := by rw [← count, none rfl]; rfl
      refine Or.inl (tornDown_tearDown whole (Or.inr (Nat.zero_le _)) ?_ (last ▸ time))
      exact fun later after within => absurd within (Nat.not_lt.mpr after)
    | cons hop inner =>
      by_cases more : inner = []
      · subst more
        have last : circuit.size - 1 = before := by rw [← count]; rfl
        refine Or.inl (tornDown_tearDown whole (Or.inr (Nat.le_refl _)) (fun later after within => ?_) (last ▸ time))
        rwa [Nat.le_antisymm (Nat.le_of_lt_succ within) after]
      · have timely : fate.hurry start now = now := by
          rw [moment, ← calm rfl] at time
          exact time
        exact Or.inr ⟨inner, before, paused_tearDown more front count whole (calm rfl) timely⟩

end

theorem underway_begin (circuit : Circuit) (pacing : Pacing) (fate : Fate) (start : Nat) :
    circuit.Underway pacing fate start (Solo.begin circuit.close start) := by
  have first : circuit.moment pacing fate start 0 = start := by
    rw [moment, Nat.zero_mul, Nat.add_zero]
    exact Fate.hurry_start
  have front : circuit.hops.take circuit.hops.reverse.length = circuit.hops.reverse.reverse := by
    rw [List.length_reverse, List.take_length, List.reverse_reverse]
  have count : 0 + circuit.hops.reverse.length = circuit.size := by rw [Nat.zero_add, List.length_reverse, size]
  have whole := List.nil_append (circuit.agenda pacing fate start 0 circuit.hops.reverse)
  let hurried : Bool := circuit.config.closeDelay = 0
  have hurry : hurried = true → ∀ later, 0 ≤ later → circuit.moment pacing fate start later = start := by
    intro quick later _
    rw [moment, of_decide_eq_true quick, pacing.none, Nat.mul_zero, Nat.add_zero]
    exact Fate.hurry_start
  have underway := underway_tearDown front count (fun _ => rfl) whole first (fun _ => by rw [Nat.zero_mul, Nat.add_zero]) hurry
  rw [List.reverse_reverse, tearDown_withHops] at underway
  exact underway

/-- A pause that is over leads to the next hop, one that is cut to the end. -/
theorem Paused.step {rest : List Hop} (paused : circuit.Paused pacing fate start rest before solo)
    (step : solo.Step pacing fate next) : circuit.Underway pacing fate start next := by
  obtain ⟨more, front, count, cut, waits, time, timely, whole⟩ := paused
  have begun : start ≤ solo.now := by rw [time]; exact Nat.le_add_right _ _
  have later_start {later : Nat} (after : before + 1 ≤ later) :
      solo.now + pacing.lasts circuit.config.closeDelay ≤ start + later * pacing.lasts circuit.config.closeDelay := by
    rw [time, Nat.add_assoc, ← Nat.succ_mul]
    exact Nat.add_le_add_left (Nat.mul_le_mul_right _ after) _
  cases step with
  | @pause _ _ now _ _ asks ends goes =>
    rw [waits] at asks
    cases asks
    rw [cut] at goes
    obtain rfl | rfl := ends.ready_or_cancelled
    · obtain ⟨due, timely⟩ := ends.over_on_time begun timely
      have next : start + (before + 1) * pacing.lasts circuit.config.closeDelay = now := by
        rw [Nat.succ_mul, ← Nat.add_assoc, ← time, ← due]
      cases goes
      refine underway_tearDown front count (fun none => absurd none more) whole ?_ (fun _ => next.symm) nofun
      rw [moment, next]
      exact timely
    · have hurries : ∀ later, before + 1 ≤ later → circuit.moment pacing fate start later = now := fun later after =>
        ends.cut_hurries begun timely (later_start after)
      cases goes
      exact underway_tearDown front count (fun none => absurd none more) whole (hurries _ (Nat.le_refl _)) nofun
        fun _ => hurries

theorem TornDown.ends (done : circuit.TornDown pacing fate start solo) : ¬ solo.Step pacing fate next := by
  rintro ⟨waits, _, _⟩
  rw [done.returned] at waits
  cases waits

theorem underway_run (run : Relation.ReflTransGen (Solo.Step pacing fate) (Solo.begin circuit.close start) solo) :
    circuit.Underway pacing fate start solo := by
  induction run with
  | refl => exact circuit.underway_begin pacing fate start
  | tail _ step ih =>
    obtain done | ⟨rest, before, paused⟩ := ih
    · exact absurd step done.ends
    · exact paused.step step

theorem Paused.goes {rest : List Hop} (paused : circuit.Paused pacing fate start rest before solo) :
    ∃ next, solo.Step pacing fate next := by
  obtain ⟨now, wake, ends⟩ := fate.ends_exists solo.now (pacing.lasts circuit.config.closeDelay)
  obtain rfl | rfl := ends.ready_or_cancelled
  · exact ⟨_, .pause paused.waits ends rfl⟩
  · exact ⟨_, .pause paused.waits ends rfl⟩

theorem length_agenda (before : Nat) (rest : List Hop) :
    (circuit.agenda pacing fate start before rest).length = rest.length + 1 := by
  simp [agenda, dated]

theorem agenda_eq : circuit.agenda pacing fate start 0 circuit.hops.reverse =
    circuit.hops.reverse.zipIdx.map (fun (hop, before) => (circuit.moment pacing fate start before,
      ⟨.closeLink hop.link.ref, circuit.withHops (circuit.hops.take (circuit.size - 1 - before))⟩)) ++
    [(circuit.moment pacing fate start (circuit.size - 1), circuit.ending)] := by
  rw [agenda, dated, cuts_eq]
  congr 1
  apply List.ext_getElem
  · simp
  · simp [size]

theorem Underway.log_grows (underway : circuit.Underway pacing fate start solo) (step : solo.Step pacing fate next) :
    solo.log.length < next.log.length := by
  obtain done | ⟨rest, before, paused⟩ := underway
  · exact absurd step done.ends
  · cases step with
    | @pause _ _ _ wake turn asks ends goes =>
      rw [paused.waits] at asks
      cases asks
      have acts : turn.effects ≠ [] := by
        obtain rfl | rfl := ends.ready_or_cancelled
        all_goals
          cases goes
          exact tearDown_acts _ _ _
      rw [Solo.goOn, List.length_append, List.length_map]
      exact Nat.lt_add_of_pos_right (List.length_pos_iff.mpr acts)

end

/-- A circuit that is torn down alone closes its hops from the last to the first, and then what was routed through it. The
circuit and its key end before a hop when that is closed. Hops are closed a pause apart; once the signal is raised, all that
are left are closed at once, and nothing else keeps the call from its end. -/
theorem torn_down_in_order (circuit : Circuit) (pacing : Pacing) (fate : Fate) (start : Nat) :
    let delay := circuit.config.closeDelay
    let moment (before : Nat) : Nat := fate.hurry start (start + before * pacing.lasts delay)
    let closings : List (Nat × CircuitEffect) := circuit.hops.reverse.zipIdx.map fun (hop, before) =>
      (moment before, ⟨.closeLink hop.link.ref, circuit.withHops (circuit.hops.take (circuit.size - 1 - before))⟩)
    let agenda := closings ++ [(moment (circuit.size - 1), ⟨.closeRelayed circuit.kind, circuit.withHops []⟩)]
    ∀ solo, Relation.ReflTransGen (Solo.Step pacing fate) (Solo.begin circuit.close start) solo →
      solo.turn.circuit = circuit.withHops (circuit.hops.take (circuit.size - solo.log.length)) ∧
      (solo.turn.next = .returned .closed ∧ solo.log = agenda ∨
        (∃ call, solo.turn.next = .waiting (.pause delay) call) ∧ solo.log <+: agenda ∧
          (∃ next, solo.Step pacing fate next) ∧
          ∀ next, solo.Step pacing fate next → solo.log.length < next.log.length) := by
  intro delay moment closings agenda solo run
  have same : circuit.agenda pacing fate start 0 circuit.hops.reverse = agenda := agenda_eq
  have size : agenda.length = circuit.size + 1 := by rw [← same, length_agenda, List.length_reverse, Circuit.size]
  have underway := underway_run run
  obtain ⟨cut, returned, log⟩ | ⟨rest, before, paused⟩ := id underway
  · rw [same] at log
    refine ⟨?_, Or.inl ⟨returned, log⟩⟩
    rw [cut, log, size, Nat.sub_eq_zero_of_le (Nat.le_succ _), List.take_zero]
  · have begins : solo.log <+: agenda := ⟨_, paused.log.trans same⟩
    have left : circuit.size - solo.log.length = rest.length := by
      have lengths := congrArg List.length (paused.log.trans same)
      rw [List.length_append, length_agenda, size] at lengths
      omega
    rw [paused.cut, left, paused.front]
    exact ⟨rfl, Or.inr ⟨⟨_, paused.waits⟩, begins, paused.goes, fun next => underway.log_grows⟩⟩

/-- The signal is raised in the second of two pauses. -/
theorem torn_down_in_order_hurried :
    let circuit := (Circuit.start .outgoing {}).withHops [numberedHop 1, numberedHop 2, numberedHop 3]
    let pacing : Pacing := ⟨UInt64.toNat, rfl⟩
    let fate : Fate := ⟨some 150, none, nofun⟩
    ∃ solo, Relation.ReflTransGen (Solo.Step pacing fate) (Solo.begin circuit.close 0) solo ∧
      solo.turn.next = .returned .closed ∧
      solo.log = [(0, ⟨.closeLink 3, circuit.withHops [numberedHop 1, numberedHop 2]⟩),
        (100, ⟨.closeLink 2, circuit.withHops [numberedHop 1]⟩), (150, ⟨.closeLink 1, circuit.withHops []⟩),
        (150, ⟨.closeRelayed .outgoing, circuit.withHops []⟩)] := by
  intro circuit pacing fate
  have calm {now : Nat} (before : now < 150) : (fate.signal now).raised = false := by
    apply Fate.calm_iff.mpr
    intro raised same
    cases same
    exact before
  have done : fate.Ends 0 100 100 .ready := .elapsed fun now _ within => calm (by omega)
  have cut : fate.Ends 100 100 150 .cancelled := .cut (by decide) (by decide) (by decide) fun before _ ahead => calm ahead
  let turn := (circuit.withHops [numberedHop 1, numberedHop 2]).tearDown false [numberedHop 2, numberedHop 1]
  let paused := (Solo.begin circuit.close 0).goOn turn 100
  have first : (Solo.begin circuit.close 0).Step pacing fate paused := .pause rfl done rfl
  have second : paused.Step pacing fate _ := .pause rfl cut rfl
  have run := (Relation.ReflTransGen.single first).tail second
  refine ⟨_, run, ?_⟩
  obtain ⟨_, ⟨returned, log⟩ | ⟨⟨call, waits⟩, _⟩⟩ := circuit.torn_down_in_order pacing fate 0 _ run
  · exact ⟨returned, log⟩
  · cases waits

end Circuit
end OnionCircuit
