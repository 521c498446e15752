import OnionCircuit.Proofs.HopChain
import OnionCircuit.Proofs.HopClosing

/-! How a circuit grows. A hop is judged before the last hop is told of it, and until the answer is there nobody else
may add one. What has happened to the circuit in the meantime can only have made it shorter, and then it ends elsewhere. -/

namespace OnionCircuit

namespace Session
open Circuit (numberedHop)

/-- The call at a place is telling the last hop about a new one. -/
def Announces (session : Session) (place : Nat) (last new : Hop) : Prop :=
  session.calls[place]? = some (some (.announcing last new))

/-- The turn that a call takes in a move. -/
def turn? (session : Session) : Move → Option Turn
  | .join candidate => some (session.circuit.join candidate)
  | .close => some session.circuit.close
  | .maintain => some session.circuit.maintain
  | .wake place wake => session.calls[place]?.join.bind fun call => call.resume session.circuit wake
  | .clean => none
  | .die _ => none

theorem turn?_cases {session : Session} {move : Move} {turn : Turn} (takes : session.turn? move = some turn) :
    (∃ candidate, turn = session.circuit.join candidate) ∨
    (∃ last new answer, turn = session.circuit.announced last new answer) ∨
    (∃ hurried hops, turn = session.circuit.tearDown hurried hops) ∨
    ∃ answered hops, turn = session.circuit.pingNext answered hops := by
  cases move with
  | join candidate =>
    cases takes
    exact Or.inl ⟨candidate, rfl⟩
  | close =>
    cases takes
    exact Or.inr (Or.inr (Or.inl ⟨_, _, rfl⟩))
  | maintain =>
    cases takes
    exact Or.inr (Or.inr (Or.inr ⟨_, _, rfl⟩))
  | clean => cases takes
  | die link => cases takes
  | wake place wake =>
    obtain ⟨call, _, resumed⟩ := Option.bind_eq_some_iff.mp takes
    cases call with
    | joining candidate =>
      cases wake <;> cases resumed
      exact Or.inl ⟨candidate, rfl⟩
    | announcing last new =>
      cases wake <;> cases resumed
      all_goals exact Or.inr (Or.inl ⟨last, new, _, rfl⟩)
    | closing hops =>
      cases wake <;> cases resumed
      all_goals exact Or.inr (Or.inr (Or.inl ⟨_, hops, rfl⟩))
    | pinging hops answered =>
      cases wake <;> cases resumed
      · exact Or.inr (Or.inr (Or.inr ⟨_, hops, rfl⟩))
      · exact Or.inr (Or.inr (Or.inr ⟨answered, [], rfl⟩))

/-- What a move means for the hop that is being added. -/
inductive Growth (session : Session) (move : Move) (after : Session) : Prop
  | rests (shortens : session.circuit.Shortens after.circuit)
      (same : ∀ place last new, after.Announces place last new ↔ session.Announces place last new)
  | founds (new : Hop) (empty : session.circuit.hops = []) (addable : session.circuit.MayAdd new)
      (grown : after.circuit = session.circuit.withHops (session.circuit.hops ++ [new]))
      (free : session.circuit.growing = false)
      (same : ∀ place last new, after.Announces place last new ↔ session.Announces place last new)
  | announces (place : Nat) (last new : Hop) (ends : session.circuit.hops.getLast? = some last)
      (addable : session.circuit.MayAdd new) (locked : after.circuit = { session.circuit with growing := true })
      (free : session.circuit.growing = false)
      (starts : ∀ call, session.calls[place]? = some call → ∃ candidate, call = some (.joining candidate))
      (opened : ∀ other inner outer, after.Announces other inner outer ↔
        other = place ∧ inner = last ∧ outer = new ∨ other ≠ place ∧ session.Announces other inner outer)
  | joins (place : Nat) (last new : Hop) (here : session.Announces place last new)
      (accepted : move = .wake place (.setup (some .success)))
      (ends : session.circuit.hops.getLast?.map Hop.endpoint = some last.endpoint)
      (grown : after.circuit = { session.circuit with growing := false }.withHops (session.circuit.hops ++ [new]))
      (ended : ∀ other inner outer, after.Announces other inner outer ↔ other ≠ place ∧ session.Announces other inner outer)
  | fails (place : Nat) (last new : Hop) (here : session.Announces place last new)
      (freed : after.circuit = { session.circuit with growing := false })
      (ended : ∀ other inner outer, after.Announces other inner outer ↔ other ≠ place ∧ session.Announces other inner outer)

section
variable {session after : Session}

/-- A call takes a turn at a place, and all others wait on. -/
private theorem announces_take {turn : Turn} {calls : List (Option Call)} {place : Nat}
    (puts : ∀ other, calls[other]? = if other = place then some turn.call? else session.calls[other]?)
    (other : Nat) (last new : Hop) : (session.take turn calls).Announces other last new ↔
      other = place ∧ turn.call? = some (.announcing last new) ∨ other ≠ place ∧ session.Announces other last new := by
  change calls[other]? = _ ↔ _
  rw [puts other]
  by_cases same : other = place
  · simp [same]
  · simp [same, Announces]

private theorem puts_begin (call : Option Call) (other : Nat) :
    (session.calls ++ [call])[other]? = if other = session.calls.length then some call else session.calls[other]? := by
  rw [List.getElem?_append]
  obtain before | rfl | behind := Nat.lt_trichotomy other session.calls.length
  · rw [if_pos before, if_neg (Nat.ne_of_lt before)]
  · simp
  · rw [if_neg (Nat.not_lt.mpr (Nat.le_of_lt behind)), if_neg (Nat.ne_of_gt behind),
      List.getElem?_eq_none (Nat.le_of_lt behind), List.getElem?_eq_none (by rw [List.length_singleton]; omega)]

private theorem puts_wake {place : Nat} {before : Option Call} (here : session.calls[place]? = some before)
    (call : Option Call) (other : Nat) :
    (session.calls.set place call)[other]? = if other = place then some call else session.calls[other]? := by
  rw [List.getElem?_set]
  by_cases same : other = place
  · rw [if_pos same.symm, if_pos same, if_pos (List.getElem?_eq_some_iff.mp here).1]
  · rw [if_neg (Ne.symm same), if_neg same]

variable {move : Move} {turn : Turn} {calls : List (Option Call)} {place : Nat}
  (puts : ∀ other, calls[other]? = if other = place then some turn.call? else session.calls[other]?)
include puts

private theorem announces_same (quiet : ∀ last new, ¬ session.Announces place last new)
    (silent : ∀ last new, turn.call? ≠ some (.announcing last new)) (other : Nat) (last new : Hop) :
    (session.take turn calls).Announces other last new ↔ session.Announces other last new := by
  rw [announces_take puts]
  constructor
  · rintro (⟨_, announcing⟩ | ⟨_, before⟩)
    · exact absurd announcing (silent last new)
    · exact before
  · intro before
    refine Or.inr ⟨?_, before⟩
    rintro rfl
    exact quiet last new before

private theorem growth_of_join (chained : Chained session.circuit.hops) {candidate : Candidate}
    (starts : ∀ call, session.calls[place]? = some call → ∃ candidate, call = some (.joining candidate))
    (joins : turn = session.circuit.join candidate) : session.Growth move (session.take turn calls) := by
  have quiet (last new : Hop) : ¬ session.Announces place last new := by
    intro announcing
    obtain ⟨_, joining⟩ := starts _ announcing
    cases joining
  subst joins
  obtain ⟨circuit, silent⟩ | ⟨free, judged, ⟨returned, grown, empty⟩ | ⟨last, ends, locked, announcing⟩⟩ :=
    session.circuit.join_cases candidate
  · exact .rests (Or.inl circuit) (announces_same puts quiet silent)
  · refine .founds _ empty (Circuit.mayAdd_of_judge chained judged) grown free (announces_same puts quiet ?_)
    intro last new announcing
    rw [returned] at announcing
    cases announcing
  · refine .announces place last _ ends (Circuit.mayAdd_of_judge chained judged) locked free starts ?_
    intro other inner outer
    rw [announces_take puts, announcing]
    simp only [Option.some.injEq, Call.announcing.injEq, eq_comm]

private theorem growth_of_answer {last new : Hop} (here : session.Announces place last new) {answer : Option Verdict}
    (answered : turn = session.circuit.announced last new answer)
    (told : answer = some .success → move = .wake place (.setup (some .success))) :
    session.Growth move (session.take turn calls) := by
  subst answered
  have ended (other : Nat) (inner outer : Hop) :
      (session.take (session.circuit.announced last new answer) calls).Announces other inner outer ↔
        other ≠ place ∧ session.Announces other inner outer := by
    rw [announces_take puts, session.circuit.announced_call last new answer]
    simp
  obtain ⟨accepted, ends, grown⟩ | freed := session.circuit.announced_cases last new answer
  · exact .joins place last new here (told accepted) ends grown ended
  · exact .fails place last new here freed ended

private theorem growth_of_tearDown (quiet : ∀ last new, ¬ session.Announces place last new) {hurried : Bool}
    {hops : List Hop} (tears : turn = session.circuit.tearDown hurried hops) :
    session.Growth move (session.take turn calls) := by
  subst tears
  exact .rests (session.circuit.tearDown_shortens hurried hops)
    (announces_same puts quiet (session.circuit.tearDown_call hurried hops))

private theorem growth_of_pings (quiet : ∀ last new, ¬ session.Announces place last new)
    (circuit : turn.circuit = session.circuit) (silent : ∀ last new, turn.call? ≠ some (.announcing last new)) :
    session.Growth move (session.take turn calls) :=
  .rests (Or.inl circuit) (announces_same puts quiet silent)

end

theorem clean_shortens (session : Session) : session.circuit.Shortens session.clean.circuit := by
  unfold clean Circuit.clean
  simp only
  split
  · exact Or.inl rfl
  · exact Or.inr ⟨_, List.takeWhile_prefix _, rfl⟩

/-- All that can become of a hop that is being added, in one move. -/
theorem step?_growth {session after : Session} {move : Move} (chained : Chained session.circuit.hops)
    (moved : session.step? move = some after) : session.Growth move after := by
  have new_place (last new : Hop) : ¬ session.Announces session.calls.length last new := by
    intro there
    rw [Announces, List.getElem?_eq_none (Nat.le_refl _)] at there
    cases there
  cases move with
  | join candidate =>
    cases moved
    refine growth_of_join (puts_begin _) chained ?_ rfl
    intro call there
    rw [List.getElem?_eq_none (Nat.le_refl _)] at there
    cases there
  | close =>
    cases moved
    exact growth_of_tearDown (puts_begin _) new_place rfl
  | maintain =>
    cases moved
    exact growth_of_pings (puts_begin _) new_place (session.circuit.pingNext_circuit 0 _) (session.circuit.pingNext_call 0 _)
  | clean =>
    cases moved
    exact .rests session.clean_shortens fun _ _ _ => Iff.rfl
  | die link =>
    cases moved
    exact .rests (Or.inl rfl) fun _ _ _ => Iff.rfl
  | wake place wake =>
    obtain ⟨call, there, moved⟩ := Option.bind_eq_some_iff.mp moved
    obtain ⟨turn, resumed, moved⟩ := Option.bind_eq_some_iff.mp moved
    cases moved
    have here : session.calls[place]? = some (some call) := Option.join_eq_some_iff.mp there
    have puts := puts_wake here turn.call?
    have only (last new : Hop) (announcing : session.Announces place last new) : call = .announcing last new :=
      Option.some.inj (Option.some.inj (here.symm.trans announcing))
    cases call with
    | joining candidate =>
      cases wake <;> cases resumed
      refine growth_of_join puts chained ?_ rfl
      intro call same
      exact ⟨candidate, Option.some.inj (same.symm.trans here)⟩
    | announcing last new =>
      cases wake <;> cases resumed
      · exact growth_of_answer puts here rfl fun accepted => by rw [accepted]
      · exact growth_of_answer puts here rfl nofun
    | closing hops =>
      have quiet (last new : Hop) (announcing : session.Announces place last new) : False := by
        cases only last new announcing
      cases wake <;> cases resumed
      · exact growth_of_tearDown puts quiet rfl
      · exact growth_of_tearDown puts quiet rfl
    | pinging hops answered =>
      have quiet (last new : Hop) (announcing : session.Announces place last new) : False := by
        cases only last new announcing
      cases wake <;> cases resumed
      · exact growth_of_pings puts quiet (session.circuit.pingNext_circuit _ hops) (session.circuit.pingNext_call _ hops)
      · exact growth_of_pings puts quiet rfl fun _ _ announcing => nomatch announcing

/-- While a hop is being added, the lock is held for its call alone. -/
structure Guarded (kind : CircuitKind) (config : CircuitConfig) (session : Session) : Prop where
  sound : session.circuit.Sound kind config
  locked : ∀ place last new, session.Announces place last new → session.circuit.growing = true
  alone : ∀ place other last new inner outer, session.Announces place last new → session.Announces other inner outer →
    place = other
  awaits : ∀ place last new, session.Announces place last new → session.circuit.Awaits last new

section
variable {kind : CircuitKind} {config : CircuitConfig} {session after : Session} {move : Move}

private theorem guarded_of_nobody (sound : session.circuit.Sound kind config)
    (nobody : ∀ place last new, ¬ session.Announces place last new) : session.Guarded kind config where
  sound := sound
  locked := fun place last new announcing => absurd announcing (nobody place last new)
  alone := fun place _ last new _ _ announcing => absurd announcing (nobody place last new)
  awaits := fun place last new announcing => absurd announcing (nobody place last new)

/-- Once the one call that adds a hop has ended, no call adds one. -/
theorem Guarded.nobody (guarded : session.Guarded kind config) {place : Nat} {last new : Hop}
    (here : session.Announces place last new)
    (ended : ∀ other inner outer, after.Announces other inner outer ↔ other ≠ place ∧ session.Announces other inner outer)
    (other : Nat) (inner outer : Hop) : ¬ after.Announces other inner outer := by
  rw [ended]
  rintro ⟨different, before⟩
  exact different (guarded.alone _ _ _ _ _ _ before here)

theorem Guarded.step (guarded : session.Guarded kind config) (moved : session.step? move = some after) :
    after.Guarded kind config := by
  have free_of (free : session.circuit.growing = false) (place : Nat) (last new : Hop) :
      ¬ session.Announces place last new := by
    intro announcing
    rw [guarded.locked place last new announcing] at free
    cases free
  cases step?_growth guarded.sound.chained moved with
  | rests shortens same =>
    refine ⟨guarded.sound.shortens shortens, ?_, ?_, ?_⟩
    · intro place last new still
      rw [shortens.growing]
      exact guarded.locked place last new ((same _ _ _).mp still)
    · intro place other last new inner outer one two
      exact guarded.alone _ _ _ _ _ _ ((same _ _ _).mp one) ((same _ _ _).mp two)
    · intro place last new still
      exact (guarded.awaits place last new ((same _ _ _).mp still)).shortens shortens
  | founds new empty addable grown free same =>
    apply guarded_of_nobody (grown ▸ guarded.sound.append addable)
    intro place last new
    rw [same]
    exact free_of free place last new
  | announces place last new ends addable locked free _ opened =>
    have only (other : Nat) (inner outer : Hop) (still : after.Announces other inner outer) :
        other = place ∧ inner = last ∧ outer = new := by
      obtain here | ⟨_, before⟩ := (opened other inner outer).mp still
      · exact here
      · exact absurd before (free_of free other inner outer)
    refine ⟨locked ▸ guarded.sound.growing true, ?_, ?_, ?_⟩
    · intro _ _ _ _
      rw [locked]
    · intro one two _ _ _ _ first second
      exact (only _ _ _ first).1.trans (only _ _ _ second).1.symm
    · intro other inner outer still
      obtain ⟨_, rfl, rfl⟩ := only other inner outer still
      rw [locked]
      exact addable.awaits ends true
  | joins place last new here _ ends grown ended =>
    -- The hop was judged when the call began; that the circuit still ends alike makes the verdict hold now.
    obtain ⟨_, addable⟩ := (guarded.awaits place last new here).unchanged ends
    refine guarded_of_nobody ?_ (guarded.nobody here ended)
    rw [grown]
    exact (guarded.sound.growing false).append addable
  | fails place last new here freed ended =>
    exact guarded_of_nobody (freed ▸ guarded.sound.growing false) (guarded.nobody here ended)

private theorem start_guarded : (start kind config).Guarded kind config := by
  have sound : (start kind config).circuit.Sound kind config := ⟨rfl, Nat.zero_le _, Chained.nil, rfl, rfl⟩
  apply guarded_of_nobody sound
  intro place last new announcing
  rw [Announces, start, List.getElem?_nil] at announcing
  cases announcing

theorem Reachable.guarded (reached : Reachable kind config session) : session.Guarded kind config := by
  induction reached with
  | start => exact start_guarded
  | step _ moved ih => exact ih.step moved

/-- What a turn closes, it closes at a moment at which the circuit is sound. -/
theorem Guarded.effects (guarded : session.Guarded kind config) {turn : Turn} (takes : session.turn? move = some turn)
    {effect : CircuitEffect} (member : effect ∈ turn.effects) : effect.circuit.Sound kind config := by
  obtain ⟨candidate, rfl⟩ | ⟨last, new, answer, rfl⟩ | ⟨hurried, hops, rfl⟩ | ⟨answered, hops, rfl⟩ := turn?_cases takes
  · rw [session.circuit.join_effects candidate member]
    exact guarded.sound.growing false
  · rw [session.circuit.announced_effects last new answer member]
    exact guarded.sound.growing false
  · exact guarded.sound.shortens (session.circuit.tearDown_effects hurried hops member)
  · rw [Circuit.pingNext_effects] at member
    cases member

/-- The published key is always the one for the hops, also at the moments within a turn at which something is closed, and
the hops are told apart by all their ids and by their addresses. -/
theorem key_mirrors_hops (reached : Reachable kind config session) :
    session.circuit.Sound kind config ∧ session.circuit.key.size = session.circuit.size ∧
      session.circuit.key.first = session.circuit.hops.head?.map (fun hop => (hop.endpoint, hop.key)) ∧
      ∀ move turn, session.turn? move = some turn → ∀ effect ∈ turn.effects, effect.circuit.Sound kind config := by
  have sound := reached.guarded.sound
  refine ⟨sound, ?_, ?_, fun move turn takes effect member => reached.guarded.effects takes member⟩
  · rw [sound.key]
    exact List.length_map _
  · rw [sound.key]
    rfl

end

/-- Two hops join. The second one is offered twice: the other offer waits for the first, and is then refused. -/
theorem key_mirrors_hops_pair : ∃ session, Reachable .outgoing {} session ∧
    session.circuit.hops = [numberedHop 1, numberedHop 2] ∧ session.circuit.Sound .outgoing {} := by
  let moves : List Move := [.join (numberedHop 1).candidate, .join (numberedHop 2).candidate, .join (numberedHop 2).candidate,
    .wake 1 (.setup (some .success)), .wake 2 .ready]
  cases ran : (start .outgoing {}).run? moves with
  | none => cases ran
  | some session =>
    have reached : Reachable .outgoing {} session := Reachable.start.run ran
    cases ran
    obtain ⟨sound, _⟩ := key_mirrors_hops reached
    exact ⟨_, reached, rfl, sound⟩

end Session
end OnionCircuit
