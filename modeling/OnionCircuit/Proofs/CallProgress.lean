import OnionCircuit.Proofs.ChainGrowth
import OnionCircuit.Proofs.DeadHops

/-! No call on a circuit gets stuck. A call that is woken returns, or has less left to do, or lets the one call go first that
is adding a hop; that one waits for nobody. -/

namespace OnionCircuit

namespace Call

/-- Whether a wake is for a call that waits. -/
def heeds : Call → Wake → Bool
  | .joining _, .ready => true
  | .announcing _ _, .setup _ => true
  | .announcing _ _, .cancelled => true
  | .closing _, .ready => true
  | .closing _, .cancelled => true
  | .pinging _ _, .ping _ => true
  | .pinging _ _, .cancelled => true
  | _, _ => false

theorem resume_isSome (circuit : Circuit) (call : Call) (wake : Wake) :
    (call.resume circuit wake).isSome = call.heeds wake := by
  cases call <;> cases wake <;> rfl

/-- What wakes a call whatever it waits for, once there is a way. -/
def nudge : Call → Wake
  | .joining _ => .ready
  | _ => .cancelled

theorem heeds_nudge (call : Call) : call.heeds call.nudge = true := by cases call <;> rfl

end Call

namespace Circuit
variable (circuit : Circuit)

/-- A candidate waits for the hop that is being added, or for the answer of the last hop. -/
theorem join_waits {candidate : Candidate} {later : Call} (waits : (circuit.join candidate).call? = some later) :
    later.remaining = 1 ∨ circuit.growing = true := by
  unfold join at waits
  split at waits
  next growing => exact Or.inr growing
  next =>
    simp only at waits
    split at waits
    next => cases waits
    next =>
      split at waits
      next =>
        unfold commit at waits
        simp only at waits
        split at waits <;> cases waits
      next =>
        cases waits
        exact Or.inl rfl

/-- A turn that closes hops leaves fewer of them. -/
theorem tearDown_leaves (hurried : Bool) {hops : List Hop} {later : Call}
    (waits : (circuit.tearDown hurried hops).call? = some later) : later.remaining < hops.length := by
  induction hops generalizing circuit with
  | nil => cases waits
  | cons hop inner ih =>
    rw [tearDown] at waits
    split at waits
    · exact Nat.lt_succ_of_lt (ih _ waits)
    · cases waits
      exact Nat.lt_succ_self _

/-- Only a call that has to let another one go first has as much left to do after a turn as before. -/
theorem resume_remaining {call later : Call} {wake : Wake} {turn : Turn} (goes : call.resume circuit wake = some turn)
    (waits : turn.call? = some later) :
    later.remaining < call.remaining ∨ circuit.growing = true ∧ ∃ candidate, call = .joining candidate := by
  cases call with
  | joining candidate =>
    cases wake <;> cases goes
    obtain one | growing := circuit.join_waits waits
    · exact Or.inl (one ▸ Nat.one_lt_two)
    · exact Or.inr ⟨growing, candidate, rfl⟩
  | announcing last new =>
    cases wake <;> cases goes
    all_goals
      rw [announced_call] at waits
      cases waits
  | closing hops =>
    cases wake <;> cases goes
    all_goals exact Or.inl (circuit.tearDown_leaves _ waits)
  | pinging hops answered =>
    cases wake <;> cases goes
    · cases hops with
      | nil => cases waits
      | cons hop hops =>
        cases waits
        exact Or.inl (Nat.lt_succ_self _)
    · cases waits

/-- Both parts of a list that is cut at one of its places. -/
def splitOff? (hops : List Hop) (place : Nat) : Option (List Hop × List Hop) :=
  if place ≤ hops.length then some (hops.take place, hops.drop place) else none

/-- A clean that looks whether it cuts the circuit at one of its places. -/
def cleanCut? (isClosed : LinkRef → Bool) : Option (Circuit × List CircuitEffect × Nat) :=
  match circuit.hops.findIdx? fun hop => isClosed hop.link.ref with
  | none => some (circuit, [], 0)
  | some dead => (splitOff? circuit.hops dead).map fun (kept, removed) =>
    let circuit := circuit.withHops kept
    (circuit, removed.map fun hop => ⟨.closeLink hop.link.ref, circuit⟩, removed.length)

theorem cleanCut?_eq (isClosed : LinkRef → Bool) : circuit.cleanCut? isClosed = some (circuit.clean isClosed) := by
  unfold cleanCut?
  split
  next none =>
    have alive := List.findIdx?_eq_none_iff.mp none
    rw [clean_alive alive]
  next dead found =>
    obtain ⟨inside, place⟩ := List.findIdx?_eq_some_iff_findIdx_eq.mp found
    obtain ⟨_, closed, _⟩ := List.findIdx?_eq_some_iff_getElem.mp found
    have front : circuit.hops.take dead = circuit.reachable isClosed := by
      rw [reachable, List.takeWhile_eq_take_findIdx_not]
      simp only [Bool.not_not, place]
    have back : circuit.hops.drop dead = circuit.unreachable isClosed := by
      rw [unreachable, List.dropWhile_eq_drop_findIdx_not]
      simp only [Bool.not_not, place]
    rw [splitOff?, if_pos (Nat.le_of_lt inside), clean_dead ⟨_, List.getElem_mem inside, closed⟩, front, back]
    rfl

end Circuit

namespace Session
variable {kind : CircuitKind} {config : CircuitConfig} {session : Session}

/-- While a hop is being added, some call is telling the last hop about it. -/
theorem Reachable.held (reached : Reachable kind config session) (growing : session.circuit.growing = true) :
    ∃ place last new, session.Announces place last new := by
  induction reached with
  | start => cases growing
  | step reached moved ih =>
    cases step?_growth reached.guarded.sound.chained moved with
    | rests shortens same =>
      rw [shortens.growing] at growing
      obtain ⟨place, last, new, announcing⟩ := ih growing
      exact ⟨place, last, new, (same _ _ _).mpr announcing⟩
    | founds new _ _ grown free _ =>
      rw [grown] at growing
      exact absurd (free.symm.trans growing) Bool.false_ne_true
    | announces place last new _ _ _ _ _ opened => exact ⟨place, last, new, (opened _ _ _).mpr (Or.inl ⟨rfl, rfl, rfl⟩)⟩
    | joins _ _ _ _ _ _ grown _ =>
      rw [grown] at growing
      cases growing
    | fails _ _ _ _ freed _ =>
      rw [freed] at growing
      cases growing

/-- A call that is woken by what is for it takes a turn. -/
theorem Reachable.goes (reached : Reachable kind config session) {place : Nat} {call : Call} {wake : Wake}
    (here : session.calls[place]? = some (some call)) (heeds : call.heeds wake = true) :
    ∃ turn, session.step? (.wake place wake) = some (session.take turn (session.calls.set place turn.call?)) ∧
      ∀ later, turn.call? = some later → later.remaining < call.remaining ∨
        (∃ candidate, call = .joining candidate) ∧ ∃ other last new, session.Announces other last new := by
  rw [← call.resume_isSome session.circuit] at heeds
  obtain ⟨turn, goes⟩ := Option.isSome_iff_exists.mp heeds
  refine ⟨turn, by simp [step?, here, goes], fun later waits => ?_⟩
  obtain fewer | ⟨growing, joins⟩ := session.circuit.resume_remaining goes waits
  · exact Or.inl fewer
  · exact Or.inr ⟨joins, reached.held growing⟩

/-- How much there is left to do in all calls. -/
def work : List (Option Call) → Nat
  | [] => 0
  | call :: calls => (call.map (·.remaining + 1)).getD 0 + work calls

theorem work_set {calls : List (Option Call)} {place : Nat} {before : Call} {after : Option Call}
    (here : calls[place]? = some (some before)) (less : ∀ later, after = some later → later.remaining < before.remaining) :
    work (calls.set place after) < work calls := by
  induction calls generalizing place with
  | nil => cases here
  | cons call calls ih =>
    cases place with
    | zero =>
      cases here
      have fewer : (after.map (·.remaining + 1)).getD 0 < before.remaining + 1 := by
        cases after with
        | none => exact Nat.succ_pos _
        | some later => exact Nat.succ_lt_succ (less later rfl)
      exact Nat.add_lt_add_right fewer (work calls)
    | succ place => exact Nat.add_lt_add_left (ih here) _

/-- As long as a call waits, some call can go on and has less left to do then. -/
theorem Reachable.advances (reached : Reachable kind config session) (busy : ¬ session.Idle) :
    ∃ move after, session.step? move = some after ∧ work after.calls < work session.calls := by
  -- The call that is adding a hop comes first, since others may wait for it.
  obtain ⟨place, call, here, free⟩ : ∃ place call, session.calls[place]? = some (some call) ∧
      ∀ candidate, call = Call.joining candidate → ∀ other last new, ¬ session.Announces other last new := by
    by_cases announcing : ∃ place last new, session.Announces place last new
    · obtain ⟨place, last, new, here⟩ := announcing
      exact ⟨place, .announcing last new, here, fun _ other => nomatch other⟩
    · simp only [Idle, not_forall] at busy
      obtain ⟨call, member, waits⟩ := busy
      obtain ⟨place, here⟩ := List.getElem?_of_mem member
      obtain ⟨call, rfl⟩ := Option.ne_none_iff_exists'.mp waits
      exact ⟨place, call, here, fun _ _ other last new there => announcing ⟨other, last, new, there⟩⟩
  obtain ⟨turn, moved, less⟩ := reached.goes here call.heeds_nudge
  refine ⟨_, _, moved, work_set here fun later waits => ?_⟩
  obtain fewer | ⟨⟨candidate, joins⟩, other, last, new, there⟩ := less later waits
  · exact fewer
  · exact absurd there (free candidate joins other last new)

/-- All calls can be brought to their end. -/
theorem Reachable.returns (reached : Reachable kind config session) :
    ∃ moves after, session.run? moves = some after ∧ after.Idle := by
  induction left : work session.calls using Nat.strongRecOn generalizing session with
  | ind left ih =>
    subst left
    by_cases idle : session.Idle
    · exact ⟨[], session, rfl, idle⟩
    · obtain ⟨move, middle, moved, less⟩ := reached.advances idle
      obtain ⟨moves, after, ran, done⟩ := ih _ less (reached.step moved) rfl
      exact ⟨move :: moves, after, by rw [run?, List.foldlM_cons, moved]; exact ran, done⟩

/-- Whatever is for a call lets it go on, all calls can be brought to their end, and no clean cuts off more than there is. -/
structure Unstuck (session : Session) : Prop where
  goes : ∀ place call wake, session.calls[place]? = some (some call) → call.heeds wake = true → ∃ turn,
    session.step? (.wake place wake) = some (session.take turn (session.calls.set place turn.call?)) ∧
      ∀ later, turn.call? = some later → later.remaining < call.remaining ∨
        (∃ candidate, call = .joining candidate) ∧ ∃ other last new, session.Announces other last new
  returns : ∃ moves after, session.run? moves = some after ∧ after.Idle
  cuts : ∀ isClosed, session.circuit.cleanCut? isClosed = some (session.circuit.clean isClosed)

theorem Reachable.unstuck (reached : Reachable kind config session) : session.Unstuck where
  goes := fun _ _ _ => reached.goes
  returns := reached.returns
  cuts := session.circuit.cleanCut?_eq

end Session
end OnionCircuit
