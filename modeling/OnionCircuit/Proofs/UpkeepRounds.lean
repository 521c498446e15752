import OnionCircuit.Proofs.DeadHops
import OnionCircuit.Proofs.LoopCancellation

/-! The rounds that a loop makes on a circuit. An observer who sees what the loop does, and when it is busy, notes each round
with its tick. A round begins with its tick, or once the round before is over, and asks every hop that its clean leaves unless
the signal cuts it short. -/

namespace OnionCircuit

def Ward.chain : Ward → List Hop
  | .exchanges _ => []
  | .hops circuit => circuit.hops

def Hop.ping (hop : Hop) : Wait := .ping hop.link ⟨hop.innerId⟩

theorem Watch.ticker_of_stay {watch after : Watch} {now : Nat} (moves : .stay after ∈ watch.moves now) :
    after.ticker = watch.ticker := by
  obtain ⟨_, other⟩ | ⟨_, same⟩ := mem_moves_iff.mp moves
  · cases other
  · split at same <;> cases same
    rfl

theorem Watch.told_of_stop {watch : Watch} {now : Nat} (moves : .stop ∈ watch.moves now) :
    watch.signal.raised = true ∨ watch.signal.held = false := by
  obtain ⟨_, other⟩ | ⟨news, same⟩ := mem_moves_iff.mp moves
  · cases other
  · split at same
    next looks =>
      rw [Signal.look] at looks
      split at looks
      next => exact Or.inl looks
      next seen => exact Or.inr (by simpa [Signal.hasNews, seen] using news)
    next => cases same

namespace Keeper

/-- What a log says of some questions. -/
def asks (questions : List (Nat × Wait)) : List (Nat × Act) := questions.map fun (time, wait) => (time, .ask wait)

structure Round where
  /-- The tick that it answers. -/
  due : Nat
  began : Nat
  /-- The hops before the clean, and those that it leaves. -/
  found : List Hop
  left : List Hop
  asked : List (Nat × Wait)
  /-- When the loop is free again, and whether the signal is raised then. -/
  over? : Option (Nat × Bool)

namespace Round

def acts (round : Round) : List (Nat × Act) := (round.began, .clean) :: asks round.asked

/-- A round in which the dead hops are cut off and the others asked in their order, all of them if the signal is not raised. -/
structure Thorough (round : Round) : Prop where
  cut : ∃ isClosed : LinkRef → Bool, round.left = round.found.takeWhile fun hop => !isClosed hop.link.ref
  order : round.asked.map Prod.snd <+: round.left.map Hop.ping
  times : ∀ question ∈ round.asked, round.began ≤ question.1 ∧ ∀ finish ∈ round.over?, question.1 ≤ finish.1
  whole : ∀ finish ∈ round.over?, finish.2 = false → round.asked.map Prod.snd = round.left.map Hop.ping

/-- A round in which these hops are still to be asked. -/
structure Halfway (round : Round) (now : Nat) (rest : List Hop) : Prop where
  cut : ∃ isClosed : LinkRef → Bool, round.left = round.found.takeWhile fun hop => !isClosed hop.link.ref
  begun : round.began ≤ now
  times : ∀ question ∈ round.asked, round.began ≤ question.1 ∧ question.1 ≤ now
  unfinished : round.over? = none
  order : round.asked.map Prod.snd ++ rest.map Hop.ping = round.left.map Hop.ping

/-- The round after another question, or after its end. -/
def goOn (round : Round) (asked : List (Nat × Wait)) (over? : Option (Nat × Bool)) : Round :=
  { round with asked := round.asked ++ asked, over? := round.over?.or over? }

variable {round : Round} {now : Nat} {hop : Hop} {rest : List Hop}

theorem Halfway.later (halfway : round.Halfway now rest) {time : Nat} (past : now ≤ time) : round.Halfway time rest :=
  ⟨halfway.cut, Nat.le_trans halfway.begun past,
    fun question asked => (halfway.times question asked).imp_right fun early => Nat.le_trans early past,
    halfway.unfinished, halfway.order⟩

theorem Halfway.ask (halfway : round.Halfway now (hop :: rest)) : (round.goOn [(now, hop.ping)] none).Halfway now rest := by
  refine ⟨halfway.cut, halfway.begun, ?_, ?_, ?_⟩
  · intro question asked
    obtain before | new := List.mem_append.mp asked
    · exact halfway.times question before
    · cases List.mem_singleton.mp new
      exact ⟨halfway.begun, Nat.le_refl now⟩
  · rw [goOn, Option.or_none]
    exact halfway.unfinished
  · rw [goOn, List.map_append, List.append_assoc, ← halfway.order]
    rfl

/-- A round that is not over is thorough so far. -/
theorem Halfway.thorough (halfway : round.Halfway now rest) : round.Thorough where
  cut := halfway.cut
  order := ⟨_, halfway.order⟩
  times := fun question asked => ⟨(halfway.times question asked).1, by rw [halfway.unfinished]; nofun⟩
  whole := by rw [halfway.unfinished]; nofun

/-- Only the signal ends a round before all hops are asked. -/
theorem Halfway.finish (halfway : round.Halfway now rest) {raised : Bool} (done : raised = false → rest = []) :
    (round.goOn [] (some (now, raised))).Thorough := by
  have ended : (round.goOn [] (some (now, raised))).over? = some (now, raised) := by
    rw [goOn, halfway.unfinished]
    rfl
  have asked : (round.goOn [] (some (now, raised))).asked = round.asked := List.append_nil _
  refine ⟨halfway.cut, ?_, ?_, ?_⟩
  · rw [asked]
    exact ⟨_, halfway.order⟩
  · rw [asked, ended]
    intro question member
    obtain ⟨late, early⟩ := halfway.times question member
    refine ⟨late, fun _ same => ?_⟩
    cases same
    exact early
  · rw [asked, ended]
    intro _ same calm
    cases same
    have order := halfway.order
    rwa [done calm, List.map_nil, List.append_nil] at order

end Round

def Act.wait? : Act → Option Wait
  | .clean => none
  | .ask wait => some wait

/-- When the loop became free, if it is not in the middle of a round, and whether the signal was raised then. -/
def free? (keeper : Keeper) : Option (Nat × Bool) :=
  match keeper.phase with
  | .asking _ => none
  | _ => some (keeper.now, keeper.watch.signal.raised)

/-- The rounds, the latest first, after a step from one keeper to another. A clean opens a round, and questions belong to the
round that was opened last, which is over as soon as the loop is free. -/
def note (before after : Keeper) (rounds : List Round) : List Round :=
  let acts := after.log.drop before.log.length
  let opened : List Round :=
    if acts.any (·.2.wait?.isNone) then
      ⟨before.watch.ticker.due, before.now, before.ward.chain, after.ward.chain, [], none⟩ :: rounds
    else rounds
  match opened with
  | [] => []
  | round :: earlier =>
    round.goOn (acts.filterMap fun (time, act) => act.wait?.map (time, ·)) after.free? :: earlier

/-- A run with the rounds that were noted in it. -/
inductive Noted (first : Keeper) : Keeper → List Round → Prop
  | start : Noted first first []
  | step {keeper after : Keeper} {rounds : List Round} (noted : Noted first keeper rounds) (step : keeper.Step after) :
    Noted first after (keeper.note after rounds)

/-- The notes are an observer's alone: every run has them. -/
theorem noted_of_run {first keeper : Keeper} (run : Relation.ReflTransGen Step first keeper) :
    ∃ rounds, first.Noted keeper rounds := by
  induction run with
  | refl => exact ⟨[], .start⟩
  | tail _ step ih =>
    obtain ⟨rounds, noted⟩ := ih
    exact ⟨_, noted.step step⟩

section
variable (period start : Nat)

/-- The tick after some rounds. -/
def dueAfter : List Round → Nat
  | [] => start
  | round :: _ => (Ticker.tick ⟨period, round.due⟩ round.began).due

/-- When the loop is free after some rounds. -/
def freeAfter? : List Round → Option Nat
  | [] => some start
  | round :: _ => round.over?.map Prod.fst

/-- Every round answers the next tick, when that comes or when the round before is over, whichever is later. -/
inductive Timely : List Round → Prop
  | nil : Timely []
  | cons {round : Round} {earlier : List Round} {free : Nat} (timely : Timely earlier)
    (tick : round.due = dueAfter period start earlier) (ready : freeAfter? start earlier = some free)
    (began : round.began = max round.due free) : Timely (round :: earlier)

/-- Between two rounds the next tick is not overdue; in a round the hops that are not asked yet are still to be asked. -/
def Stands (keeper : Keeper) (rounds : List Round) : Prop :=
  match keeper.phase with
  | .idle => ∃ free, freeAfter? start rounds = some free ∧ free ≤ keeper.now ∧ keeper.now ≤ max keeper.watch.ticker.due free
  | .asking call => ∃ round earlier rest answered, rounds = round :: earlier ∧ call = .pinging rest answered ∧
      round.Halfway keeper.now rest
  | .ended => ∃ free, freeAfter? start rounds = some free

/-- The loop is on schedule. -/
structure OnSchedule (keeper : Keeper) (rounds : List Round) : Prop where
  ward : ∃ circuit, keeper.ward = .hops circuit
  pace : keeper.watch.ticker.period = period
  next : keeper.watch.ticker.due = dueAfter period start rounds
  log : keeper.log = rounds.reverse.flatMap Round.acts
  timely : Timely period start rounds
  thorough : ∀ round ∈ rounds, round.Thorough
  stands : keeper.Stands start rounds

end

variable {period start : Nat} {keeper after : Keeper} {rounds : List Round}

/-- Where nothing is done, nothing is noted. -/
theorem note_still (still : after.log = keeper.log)
    (free : ∀ round ∈ rounds.head?, round.over?.isSome = true ∨ after.free? = none) : keeper.note after rounds = rounds := by
  rw [note, still, List.drop_length]
  simp only [List.any_nil, Bool.false_eq_true, if_false, List.filterMap_nil]
  cases rounds with
  | nil => rfl
  | cons round earlier =>
    have same : round.over?.or after.free? = round.over? := by
      obtain ended | busy := free round rfl
      · obtain ⟨_, known⟩ := Option.isSome_iff_exists.mp ended
        rw [known, Option.some_or]
      · rw [busy, Option.or_none]
    simp only [Round.goOn, List.append_nil, same]

theorem begin_onSchedule (circuit : Circuit) (unseen held : Bool) (since? : Option Nat) :
    (begin (.hops circuit) ⟨period, start⟩ unseen held since? start).OnSchedule period start [] where
  ward := ⟨circuit, rfl⟩
  pace := rfl
  next := rfl
  log := rfl
  timely := .nil
  thorough := nofun
  stands := ⟨start, rfl, Nat.le_refl _, Nat.le_max_right _ _⟩

/-- A loop that is not in the middle of a round has none that is not over. -/
theorem Stands.isOver (stands : keeper.Stands start rounds) (free : keeper.free?.isSome = true) :
    ∀ round ∈ rounds.head?, round.over?.isSome = true := by
  intro round latest
  obtain ⟨earlier, rfl⟩ : ∃ earlier, rounds = round :: earlier := by
    cases rounds with
    | nil => cases latest
    | cons other earlier =>
      cases latest
      exact ⟨earlier, rfl⟩
  have known : (round.over?.map Prod.fst).isSome = true := by
    unfold Stands at stands
    split at stands
    next =>
      obtain ⟨time, free, _⟩ := stands
      exact Option.isSome_iff_exists.mpr ⟨time, free⟩
    next asking =>
      simp only [free?, asking] at free
      cases free
    next =>
      obtain ⟨time, free⟩ := stands
      exact Option.isSome_iff_exists.mpr ⟨time, free⟩
  rwa [Option.isSome_map] at known

/-- What is done neither by the loop nor to its schedule. -/
theorem OnSchedule.still (onSchedule : keeper.OnSchedule period start rounds) (ward : ∃ circuit, after.ward = .hops circuit)
    (ticker : after.watch.ticker = keeper.watch.ticker) (log : after.log = keeper.log)
    (free : after.free?.isSome = keeper.free?.isSome) (stands : after.Stands start rounds) :
    after.OnSchedule period start (keeper.note after rounds) := by
  have same : keeper.note after rounds = rounds := by
    apply note_still log
    intro round latest
    cases busy : after.free? with
    | none => exact Or.inr rfl
    | some _ =>
      rw [busy] at free
      exact Or.inl (onSchedule.stands.isOver free.symm round latest)
  rw [same]
  exact ⟨ward, by rw [ticker, onSchedule.pace], by rw [ticker, onSchedule.next], by rw [log, onSchedule.log],
    onSchedule.timely, onSchedule.thorough, stands⟩

private theorem waits_asks (questions : List (Nat × Wait)) :
    ((asks questions).filterMap fun (time, act) => act.wait?.map (time, ·)) = questions := by
  rw [asks, List.filterMap_map]
  exact List.filterMap_some

theorem note_asks {questions : List (Nat × Wait)} (asked : after.log = keeper.log ++ asks questions) (round : Round)
    (earlier : List Round) :
    keeper.note after (round :: earlier) = round.goOn questions after.free? :: earlier := by
  have none : (asks questions).any (·.2.wait?.isNone) = false := by
    rw [List.any_eq_false]
    intro act member
    obtain ⟨question, _, rfl⟩ := List.mem_map.mp member
    exact Bool.false_ne_true
  simp only [note, asked, List.drop_left, none, Bool.false_eq_true, if_false, waits_asks]

theorem note_clean {questions : List (Nat × Wait)} (done : after.log = keeper.log ++ (keeper.now, .clean) :: asks questions)
    (rounds : List Round) :
    keeper.note after rounds =
      (Round.mk keeper.watch.ticker.due keeper.now keeper.ward.chain after.ward.chain [] none).goOn questions after.free? ::
        rounds := by
  have cleans : ((keeper.now, Act.clean) :: asks questions).any (·.2.wait?.isNone) = true := rfl
  have waits : (((keeper.now, Act.clean) :: asks questions).filterMap fun (time, act) => act.wait?.map (time, ·)) =
      questions := waits_asks questions
  simp only [note, done, List.drop_left, cleans, if_true, waits]

theorem goOn_phase {keeper : Keeper} (turn : Turn) : (keeper.goOn turn).phase ≠ .ended := by
  unfold goOn
  split <;> nofun

/-- A turn of the call that asks the hops asks the next one, or ends the round. -/
theorem goOn_pingNext (circuit : Circuit) (answered : Nat) {round : Round} {rest : List Hop}
    (halfway : round.Halfway keeper.now rest) (start : Nat) (earlier : List Round) :
    let after := keeper.goOn (circuit.pingNext answered rest)
    let questions := rest.head?.toList.map fun hop => (keeper.now, hop.ping)
    let next := round.goOn questions after.free?
    after.log = keeper.log ++ asks questions ∧ after.ward = .hops circuit ∧ after.watch = keeper.watch ∧
      next.Thorough ∧ after.Stands start (next :: earlier) := by
  intro after questions next
  cases rest with
  | nil =>
    refine ⟨(List.append_nil _).symm, rfl, rfl, halfway.finish fun _ => rfl,
      keeper.now, ?_, Nat.le_refl _, Nat.le_max_right _ _⟩
    change ((round.over?.or (some (keeper.now, keeper.watch.signal.raised))).map Prod.fst) = _
    rw [halfway.unfinished]
    rfl
  | cons hop rest =>
    exact ⟨rfl, rfl, rfl, halfway.ask.thorough, next, earlier, rest, answered, rfl, rfl, halfway.ask⟩

private theorem free?_isSome (same : after.phase = keeper.phase) : after.free?.isSome = keeper.free?.isSome := by
  rw [free?, free?, same]
  cases keeper.phase <;> rfl

private theorem acts_goOn (round : Round) (questions : List (Nat × Wait)) (over? : Option (Nat × Bool)) :
    (round.goOn questions over?).acts = round.acts ++ asks questions := by
  simp only [Round.goOn, Round.acts, asks, List.map_append, List.cons_append]

theorem OnSchedule.pass (onSchedule : keeper.OnSchedule period start rounds) (rests : keeper.Rests) :
    { keeper with now := keeper.now + 1 }.Stands start rounds := by
  have stands := onSchedule.stands
  obtain ⟨watch, ward, phase, now, since?, log⟩ := keeper
  cases phase with
  | idle =>
    obtain ⟨free, ready, past, _⟩ := stands
    have ahead := (Watch.moves_eq_nil_iff.mp rests).1
    exact ⟨free, ready, Nat.le_succ_of_le past, Nat.le_trans ahead (Nat.le_max_left _ _)⟩
  | asking call =>
    obtain ⟨round, earlier, rest, answered, whole, waits, halfway⟩ := stands
    exact ⟨round, earlier, rest, answered, whole, waits, halfway.later (Nat.le_succ now)⟩
  | ended => exact stands

/-- What is noted of a round that begins. -/
theorem round_opens {circuit : Circuit} (ward : keeper.ward = .hops circuit) (watch : Watch) (isClosed : LinkRef → Bool)
    (clock : Micros) (start : Nat) (rounds : List Round) :
    let after := { keeper with watch := watch }.round isClosed clock
    let opened : Round := ⟨keeper.watch.ticker.due, keeper.now, circuit.hops, circuit.reachable isClosed, [], none⟩
    ∃ questions, after.log = keeper.log ++ (keeper.now, .clean) :: asks questions ∧
      after.ward = .hops (circuit.clean isClosed).1 ∧ after.watch = watch ∧
      keeper.note after rounds = opened.goOn questions after.free? :: rounds ∧
      (opened.goOn questions after.free?).Thorough ∧ after.Stands start (opened.goOn questions after.free? :: rounds) := by
  intro after opened
  let cleaned := { keeper with watch := watch }.does .clean
  let left := (circuit.clean isClosed).1
  have kept : left.hops = circuit.reachable isClosed := Circuit.clean_hops
  have halfway : opened.Halfway cleaned.now left.hops :=
    ⟨⟨isClosed, rfl⟩, Nat.le_refl _, nofun, rfl, congrArg (List.map Hop.ping) kept⟩
  have same : after = cleaned.goOn (left.pingNext 0 left.hops) := by
    simp only [after, Keeper.round, does, ward]
    rfl
  obtain ⟨log, hops, watched, thorough, stands⟩ := goOn_pingNext left 0 halfway start rounds
  rw [← same] at log hops watched thorough stands
  have done : after.log = keeper.log ++ (keeper.now, .clean) :: asks _ := log.trans (List.append_assoc _ _ _)
  refine ⟨_, done, hops, watched, ?_, thorough, stands⟩
  rw [note_clean done, hops, ward]
  simp only [Ward.chain, kept, opened, left]

/-- A round begins just when its tick comes and the round before is over. -/
theorem OnSchedule.round (onSchedule : keeper.OnSchedule period start rounds) (idle : keeper.phase = .idle) {watch : Watch}
    (moves : .round watch ∈ keeper.watch.moves keeper.now) (isClosed : LinkRef → Bool) (clock : Micros) :
    let after := { keeper with watch := watch }.round isClosed clock
    after.OnSchedule period start (keeper.note after rounds) := by
  intro after
  obtain ⟨due, ticks⟩ : keeper.watch.ticker.due ≤ keeper.now ∧
      { keeper.watch with ticker := keeper.watch.ticker.tick keeper.now } = watch := by
    obtain ⟨due, same⟩ | ⟨_, other⟩ := Watch.mem_moves_iff.mp moves
    · exact ⟨due, WatchMove.round.inj same⟩
    · split at other <;> cases other
  obtain ⟨circuit, ward⟩ := onSchedule.ward
  have stands := onSchedule.stands
  rw [Stands, idle] at stands
  obtain ⟨free, ready, past, ahead⟩ := stands
  obtain ⟨questions, log, hops, watched, noted, thorough, stands⟩ := round_opens ward watch isClosed clock start rounds
  have ticker : after.watch.ticker = keeper.watch.ticker.tick keeper.now := by
    rw [watched]
    exact congrArg Watch.ticker ticks.symm
  rw [noted]
  constructor
  · exact ⟨_, hops⟩
  · rw [ticker, Ticker.tick]
    split <;> exact onSchedule.pace
  · rw [ticker, dueAfter, ← onSchedule.pace]
    rfl
  · rw [List.reverse_cons, List.flatMap_append, ← onSchedule.log, List.flatMap_singleton, acts_goOn]
    exact log
  · have began : keeper.now = max keeper.watch.ticker.due free := by omega
    exact .cons onSchedule.timely onSchedule.next ready began
  · exact List.forall_mem_cons.mpr ⟨thorough, onSchedule.thorough⟩
  · exact stands

/-- More questions and the end of a round change nothing but the round. -/
theorem OnSchedule.goOn {round : Round} {earlier : List Round} {questions : List (Nat × Wait)}
    (onSchedule : keeper.OnSchedule period start (round :: earlier)) (log : after.log = keeper.log ++ asks questions)
    (ward : ∃ circuit, after.ward = .hops circuit) (kept : after.watch = keeper.watch)
    (thorough : (round.goOn questions after.free?).Thorough)
    (stands : after.Stands start (round.goOn questions after.free? :: earlier)) :
    after.OnSchedule period start (keeper.note after (round :: earlier)) := by
  rw [note_asks log]
  refine ⟨ward, by rw [kept, onSchedule.pace], by rw [kept, onSchedule.next]; rfl, ?_, ?_, ?_, stands⟩
  · have before := onSchedule.log
    rw [List.reverse_cons, List.flatMap_append, List.flatMap_singleton] at before ⊢
    rw [log, before, acts_goOn, List.append_assoc]
  · cases onSchedule.timely with
    | cons timely tick ready began => exact .cons timely tick ready began
  · exact List.forall_mem_cons.mpr ⟨thorough, (List.forall_mem_cons.mp onSchedule.thorough).2⟩

/-- An answer lets the round go on, and the signal ends it. -/
theorem OnSchedule.wake (onSchedule : keeper.OnSchedule period start rounds) {call : Call}
    (asking : keeper.phase = .asking call) {circuit : Circuit} {wake : Wake}
    (told : wake = .cancelled → keeper.watch.signal.raised = true) {turn : Turn}
    (goes : call.resume circuit wake = some turn) :
    (keeper.goOn turn).OnSchedule period start (keeper.note (keeper.goOn turn) rounds) := by
  have stands := onSchedule.stands
  rw [Stands, asking] at stands
  obtain ⟨round, earlier, rest, answered, rfl, rfl, halfway⟩ := stands
  cases wake with
  | ready => cases goes
  | setup answer => cases goes
  | ping answer =>
    cases goes
    obtain ⟨log, hops, kept, thorough, stands⟩ := goOn_pingNext circuit _ halfway start earlier
    exact onSchedule.goOn log ⟨circuit, hops⟩ kept thorough stands
  | cancelled =>
    cases goes
    let turn : Turn := ⟨circuit, [], .returned (.pinged answered)⟩
    have free : (keeper.goOn turn).free? = some (keeper.now, true) := by
      rw [← told rfl]
      rfl
    have log : (keeper.goOn turn).log = keeper.log ++ asks [] := (List.append_nil _).symm
    refine onSchedule.goOn log ⟨circuit, rfl⟩ rfl ?_ ⟨keeper.now, ?_, Nat.le_refl _, Nat.le_max_right _ _⟩
    · rw [free]
      exact halfway.finish nofun
    · rw [free, freeAfter?, Round.goOn, halfway.unfinished]
      rfl

theorem OnSchedule.step (onSchedule : keeper.OnSchedule period start rounds) (step : keeper.Step after) :
    after.OnSchedule period start (keeper.note after rounds) := by
  obtain ⟨circuit, ward⟩ := onSchedule.ward
  cases step with
  | @others other becomes =>
    have hops : ∃ circuit, other = .hops circuit := by
      rw [ward] at becomes
      cases becomes with
      | hops _ after => exact ⟨after, rfl⟩
    exact onSchedule.still hops rfl rfl rfl onSchedule.stands
  | tell _ raised => exact onSchedule.still onSchedule.ward rfl rfl (free?_isSome rfl) onSchedule.stands
  | release => exact onSchedule.still onSchedule.ward rfl rfl (free?_isSome rfl) onSchedule.stands
  | pass rests => exact onSchedule.still onSchedule.ward rfl rfl (free?_isSome rfl) (onSchedule.pass rests)
  | stop idle moves =>
    have stands := onSchedule.stands
    rw [Stands, idle] at stands
    obtain ⟨free, ready, _⟩ := stands
    refine onSchedule.still onSchedule.ward rfl rfl ?_ ⟨free, ready⟩
    rw [free?, free?, idle]
  | @stay idle watch moves =>
    have same := Watch.ticker_of_stay moves
    refine onSchedule.still onSchedule.ward same rfl (free?_isSome rfl) ?_
    have stands := onSchedule.stands
    rw [Stands, idle] at stands ⊢
    rw [same]
    exact stands
  | round idle moves isClosed clock => exact onSchedule.round idle moves isClosed clock
  | wake asking _ told goes => exact onSchedule.wake asking told goes

theorem Noted.onSchedule {first : Keeper} (fresh : first.OnSchedule period start []) (noted : first.Noted keeper rounds) :
    keeper.OnSchedule period start rounds := by
  induction noted with
  | start => exact fresh
  | step _ step ih => exact ih.step step

/-- The loop makes its rounds: it is on schedule, it can answer a tick as soon as that is due, every answer to a question lets
it go on, and only the signal ends a round early or the loop. -/
structure Unfailing (period start : Nat) (keeper : Keeper) (rounds : List Round) : Prop where
  schedule : keeper.OnSchedule period start rounds
  tick : keeper.phase = .idle → keeper.watch.ticker.due ≤ keeper.now → ∀ isClosed : LinkRef → Bool, ∃ next round,
    keeper.Step next ∧ keeper.note next rounds = round :: rounds ∧ round.due = keeper.watch.ticker.due ∧
      round.began = keeper.now ∧ round.left = keeper.ward.chain.takeWhile fun hop => !isClosed hop.link.ref
  answer : ∀ call circuit, keeper.phase = .asking call → keeper.ward = .hops circuit → ∀ answer, ∃ turn,
    call.resume circuit (.ping answer) = some turn ∧ keeper.Step (keeper.goOn turn) ∧
      ((keeper.goOn turn).phase = .idle ∨ keeper.log.length < (keeper.goOn turn).log.length)
  hurry : ∀ call, keeper.phase = .asking call → keeper.watch.signal.raised = true →
    ∃ next, keeper.Step next ∧ next.now = keeper.now ∧ next.phase = .idle
  ends : ∀ next, keeper.Step next → next.phase = .ended →
    keeper.phase = .ended ∨ keeper.watch.signal.raised = true ∨ keeper.watch.signal.held = false

theorem OnSchedule.unfailing (onSchedule : keeper.OnSchedule period start rounds) :
    keeper.Unfailing period start rounds := by
  obtain ⟨circuit, ward⟩ := onSchedule.ward
  refine ⟨onSchedule, ?_, ?_, ?_, ?_⟩
  · intro idle due isClosed
    let watch : Watch := { keeper.watch with ticker := keeper.watch.ticker.tick keeper.now }
    have moves : .round watch ∈ keeper.watch.moves keeper.now := Watch.mem_moves_iff.mpr (Or.inl ⟨due, rfl⟩)
    obtain ⟨questions, _, _, _, noted, _⟩ := round_opens ward watch isClosed 0 start rounds
    refine ⟨_, _, .round idle moves isClosed 0, noted, rfl, rfl, ?_⟩
    rw [ward]
    rfl
  · intro call other asking there answer
    have stands := onSchedule.stands
    rw [Stands, asking] at stands
    obtain ⟨round, earlier, rest, answered, _, rfl, _⟩ := stands
    have goes : (Call.pinging rest answered).resume other (.ping answer) =
      some (other.pingNext (if answer.isSome then answered + 1 else answered) rest) := rfl
    have untold : Wake.ping answer = .cancelled → keeper.watch.signal.raised = true := nofun
    refine ⟨_, goes, .wake asking there untold goes, ?_⟩
    cases rest with
    | nil => exact Or.inl rfl
    | cons hop rest =>
      apply Or.inr
      change keeper.log.length < (keeper.log ++ [_]).length
      rw [List.length_append]
      exact Nat.lt_succ_self _
  · intro call asking raised
    have stands := onSchedule.stands
    rw [Stands, asking] at stands
    obtain ⟨round, earlier, rest, answered, _, rfl, _⟩ := stands
    have goes : (Call.pinging rest answered).resume circuit .cancelled =
      some ⟨circuit, [], .returned (.pinged answered)⟩ := rfl
    exact ⟨_, .wake asking ward (fun _ => raised) goes, rfl, rfl⟩
  · intro next step ended
    cases step with
    | others => exact Or.inl ended
    | tell => exact Or.inl ended
    | release => exact Or.inl ended
    | pass => exact Or.inl ended
    | stay => exact Or.inl ended
    | stop idle moves => exact Or.inr (Watch.told_of_stop moves)
    | round idle moves isClosed clock =>
      simp only [Keeper.round, does, ward] at ended
      exact absurd ended (goOn_phase _)
    | wake asking there told goes => exact absurd ended (goOn_phase _)

end Keeper
end OnionCircuit
