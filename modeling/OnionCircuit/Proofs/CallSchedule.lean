import OnionCircuit.Circuit.Call

/-! Calls on one circuit in any order. A call that has started waits until something wakes
it; meanwhile others take turns, links die, and dead hops are cut off. -/

namespace OnionCircuit

namespace CircuitEffect

def closed? (effect : CircuitEffect) : Option LinkRef :=
  match effect.deed with
  | .closeLink link => some link
  | .closeRelayed _ => none

end CircuitEffect

namespace Call

def listed : Call → List Hop
  | .closing hops => hops
  | _ => []

/-- The link to the hop that a call is adding. -/
def newLink? : Call → Option Link
  | .joining candidate => some candidate.link
  | .announcing _ new => some new.link
  | _ => none

end Call

namespace Turn

def closings (turn : Turn) : List LinkRef := turn.effects.filterMap CircuitEffect.closed?

def call? (turn : Turn) : Option Call :=
  match turn.next with
  | .returned _ => none
  | .waiting _ call => some call

/-- The hop that the call reports as joined. -/
def newcomer? (turn : Turn) : Option Hop :=
  match turn.next with
  | .returned (.joined .success) => turn.circuit.hops.getLast?
  | _ => none

def listed (turn : Turn) : List Hop := (turn.call?.map Call.listed).getD []

/-- The links to hops that are added in a turn or that the call goes on to add. -/
def newLinks (turn : Turn) : List Link :=
  turn.newcomer?.toList.map Hop.link ++ (turn.call?.bind Call.newLink?).toList

/-- A turn cuts the circuit off behind some place. What the call was going to close it closes, or is still going to. -/
structure Cuts (circuit : Circuit) (listed : List Hop) (turn : Turn) : Prop where
  hops : turn.circuit.hops = circuit.hops.take turn.listed.length
  nobody : turn.newcomer? = none
  rest : turn.listed <:+ listed
  closes : ∀ hop ∈ listed, hop.link.ref ∈ turn.closings ∨ hop ∈ turn.listed
  waits : ∀ call, turn.call? = some call → call = .closing turn.listed ∧ turn.listed ≠ []

structure Grows (circuit : Circuit) (turn : Turn) : Prop where
  hops : turn.circuit.hops = circuit.hops ++ turn.newcomer?.toList
  nothing : turn.listed = []
  busy : turn.call? ≠ some (.closing [])

theorem Cuts.busy {circuit : Circuit} {listed : List Hop} {turn : Turn} (cuts : turn.Cuts circuit listed) :
    turn.call? ≠ some (.closing []) := by
  intro idle
  obtain ⟨same, more⟩ := cuts.waits _ idle
  exact more (Call.closing.inj same).symm

theorem newcomer?_refused {circuit : Circuit} {effects : List CircuitEffect} {verdict : Verdict}
    (refused : verdict ≠ .success) : (Turn.mk circuit effects (.returned (.joined verdict))).newcomer? = none := by
  unfold newcomer?
  split
  next same =>
    simp only [Next.returned.injEq, CallResult.joined.injEq] at same
    exact absurd same refused
  next => rfl

end Turn

namespace Circuit
variable (circuit : Circuit)

@[simp] theorem hops_withHops (hops : List Hop) : (circuit.withHops hops).hops = hops := rfl

private theorem commit_grows (last : Option Hop) (new : Hop) : (circuit.commit last new).Grows circuit := by
  unfold commit
  simp only
  split
  · exact ⟨by simp [Turn.newcomer?, withHops], rfl, nofun⟩
  · exact ⟨(List.append_nil _).symm, rfl, nofun⟩

theorem join_grows (candidate : Candidate) : (circuit.join candidate).Grows circuit := by
  unfold join
  split
  · exact ⟨(List.append_nil _).symm, rfl, nofun⟩
  · simp only
    split
    next refused =>
      refine ⟨?_, rfl, nofun⟩
      rw [Turn.newcomer?_refused refused]
      exact (List.append_nil _).symm
    next =>
      split
      · exact circuit.commit_grows none _
      · exact ⟨(List.append_nil _).symm, rfl, nofun⟩

private theorem announced_grows (last new : Hop) (answer : Option Verdict) :
    (circuit.announced last new answer).Grows circuit := by
  unfold announced
  simp only
  split
  · exact circuit.commit_grows (some last) new
  · exact ⟨(List.append_nil _).symm, rfl, nofun⟩
  · exact ⟨(List.append_nil _).symm, rfl, nofun⟩

private theorem pingNext_grows (answered : Nat) (hops : List Hop) : (circuit.pingNext answered hops).Grows circuit := by
  cases hops <;> exact ⟨(List.append_nil _).symm, rfl, nofun⟩

private theorem tearDown_cuts (hurried : Bool) (hops : List Hop) : (circuit.tearDown hurried hops).Cuts circuit hops := by
  induction hops generalizing circuit with
  | nil =>
    refine ⟨rfl, rfl, List.suffix_rfl, nofun, ?_⟩
    intro call same
    cases same
  | cons hop inner ih =>
    unfold tearDown
    simp only
    split
    next =>
      obtain ⟨kept, nobody, rest, closes, waits⟩ := ih (circuit.withHops (circuit.hops.take inner.length))
      refine ⟨?_, nobody, rest.trans (List.suffix_cons hop inner), ?_, waits⟩
      · rw [hops_withHops, List.take_take, Nat.min_eq_left rest.length_le] at kept
        exact kept
      · intro other member
        obtain rfl | behind := List.mem_cons.mp member
        · exact Or.inl List.mem_cons_self
        · obtain closing | waiting := closes other behind
          · exact Or.inl (List.mem_cons_of_mem _ closing)
          · exact Or.inr waiting
    next more =>
      refine ⟨rfl, rfl, List.suffix_cons hop inner, ?_, ?_⟩
      · intro other member
        obtain rfl | behind := List.mem_cons.mp member
        · exact Or.inl (List.mem_singleton_self _)
        · exact Or.inr behind
      · rintro call same
        cases same
        refine ⟨rfl, fun none => more ?_⟩
        change inner = [] at none
        rw [none]
        rfl

/-- Every turn of a call that closes hops cuts the circuit; no other turn does. -/
theorem resume_cuts_or_grows {call : Call} {wake : Wake} {turn : Turn} (resumed : call.resume circuit wake = some turn) :
    call.listed = [] ∧ turn.Grows circuit ∨ call = .closing call.listed ∧ turn.Cuts circuit call.listed := by
  cases call with
  | joining candidate =>
    cases wake <;> cases resumed
    exact Or.inl ⟨rfl, circuit.join_grows candidate⟩
  | announcing last new =>
    cases wake <;> cases resumed
    all_goals exact Or.inl ⟨rfl, circuit.announced_grows last new _⟩
  | closing hops =>
    cases wake <;> cases resumed
    all_goals exact Or.inr ⟨rfl, circuit.tearDown_cuts _ hops⟩
  | pinging hops answered =>
    cases wake <;> cases resumed
    · exact Or.inl ⟨rfl, circuit.pingNext_grows _ hops⟩
    · exact Or.inl ⟨rfl, (List.append_nil _).symm, rfl, nofun⟩

theorem close_cuts : circuit.close.Cuts circuit circuit.hops.reverse := circuit.tearDown_cuts _ _

theorem maintain_grows : circuit.maintain.Grows circuit := circuit.pingNext_grows 0 circuit.hops

private theorem commit_links (last : Option Hop) (new : Hop) {link : Link}
    (member : link ∈ (circuit.commit last new).newLinks) : link = new.link := by
  unfold commit at member
  simp only at member
  split at member
  · simpa [Turn.newLinks, Turn.newcomer?, Turn.call?] using member
  · cases member

private theorem announced_links (last new : Hop) (answer : Option Verdict) {link : Link}
    (member : link ∈ (circuit.announced last new answer).newLinks) : link = new.link := by
  unfold announced at member
  simp only at member
  split at member
  · exact circuit.commit_links (some last) new member
  · cases member
  · cases member

theorem join_links (candidate : Candidate) {link : Link} (member : link ∈ (circuit.join candidate).newLinks) :
    link = candidate.link := by
  unfold join at member
  split at member
  · simpa [Turn.newLinks, Turn.newcomer?, Turn.call?, Call.newLink?] using member
  · simp only at member
    split at member
    next refused =>
      rw [Turn.newLinks, Turn.newcomer?_refused refused] at member
      cases member
    next =>
      split at member
      · rw [circuit.commit_links none _ member]
        rfl
      · simpa [Turn.newLinks, Turn.newcomer?, Turn.call?, Call.newLink?, Hop.ofAssignment] using member

theorem tearDown_links (hurried : Bool) (hops : List Hop) (link : Link) :
    link ∉ (circuit.tearDown hurried hops).newLinks := by
  have cuts := circuit.tearDown_cuts hurried hops
  rw [Turn.newLinks, cuts.nobody]
  cases left : (circuit.tearDown hurried hops).call? with
  | none => exact nofun
  | some call =>
    rw [(cuts.waits call left).1]
    exact nofun

theorem pingNext_links (answered : Nat) (hops : List Hop) (link : Link) :
    link ∉ (circuit.pingNext answered hops).newLinks := by
  cases hops <;> exact nofun

/-- A hop that a call adds is the one that it was started for. -/
theorem resume_links {call : Call} {wake : Wake} {turn : Turn} (resumed : call.resume circuit wake = some turn) {link : Link}
    (member : link ∈ turn.newLinks) : call.newLink? = some link := by
  cases call with
  | joining candidate =>
    cases wake <;> cases resumed
    rw [circuit.join_links candidate member]
    rfl
  | announcing last new =>
    cases wake <;> cases resumed
    all_goals
      rw [circuit.announced_links last new _ member]
      rfl
  | closing hops =>
    cases wake <;> cases resumed
    all_goals exact absurd member (tearDown_links _ _ _ _)
  | pinging hops answered =>
    cases wake <;> cases resumed
    · exact absurd member (pingNext_links _ _ _ _)
    · cases member

/-- A hop that was announced joins in the end, or it is closed. -/
theorem announced_fate (last new : Hop) (answer : Option Verdict) :
    (circuit.announced last new answer).newcomer? = some new ∨
      new.link.ref ∈ (circuit.announced last new answer).closings := by
  unfold announced
  simp only
  split
  · unfold commit
    simp only
    split
    · exact Or.inl (by simp [Turn.newcomer?])
    · exact Or.inr (List.mem_singleton_self _)
  · exact Or.inr (List.mem_singleton_self _)
  · exact Or.inr (List.mem_singleton_self _)

end Circuit

/-- A circuit, the calls on it, and what has become of its hops. -/
structure Session where
  circuit : Circuit
  /-- Every call that has started, in order; nothing is left of one that has returned. -/
  calls : List (Option Call)
  closed : List LinkRef
  /-- The hops that calls have reported as joined. -/
  joined : List Hop
  /-- The hops that a turn cut off though it did not close them and no call was going to. -/
  adrift : List Hop
  /-- Whether a hop has joined while the circuit was being torn down. -/
  crossed : Bool
deriving DecidableEq

inductive Move
  | join (candidate : Candidate)
  | close
  | maintain
  | clean
  | wake (place : Nat) (wake : Wake)
  /-- A link is closed by somebody else. -/
  | die (link : LinkRef)
deriving DecidableEq

namespace Session

def start (kind : CircuitKind) (config : CircuitConfig) : Session := ⟨Circuit.start kind config, [], [], [], [], false⟩

def isClosed (session : Session) (link : LinkRef) : Bool := session.closed.contains link

/-- The hops that calls are still going to close. -/
def listed (calls : List (Option Call)) : List Hop := calls.flatMap fun call => (call.map Call.listed).getD []

def Idle (session : Session) : Prop := ∀ call ∈ session.calls, call = none

instance (session : Session) : Decidable session.Idle := inferInstanceAs (Decidable (∀ call ∈ session.calls, call = none))

/-- A call takes a turn, after which these calls are left. -/
def take (session : Session) (turn : Turn) (calls : List (Option Call)) : Session :=
  { circuit := turn.circuit
    calls := calls
    closed := session.closed ++ turn.closings
    joined := session.joined ++ turn.newcomer?.toList
    adrift := session.adrift ++ session.circuit.hops.filter fun hop =>
      hop ∉ turn.circuit.hops ∧ hop.link.ref ∉ turn.closings ∧ hop ∉ listed calls
    crossed := session.crossed || (turn.newcomer?.isSome && !(listed calls).isEmpty) }

def begin (session : Session) (turn : Turn) : Session := session.take turn (session.calls ++ [turn.call?])

/-- Cuts the circuit in front of its first dead hop. -/
def clean (session : Session) : Session :=
  let (circuit, effects, _) := session.circuit.clean session.isClosed
  { session with circuit := circuit, closed := session.closed ++ effects.filterMap CircuitEffect.closed? }

/-- Only a call that waits can be woken, and only by what it waits for. -/
def step? (session : Session) : Move → Option Session
  | .join candidate => some (session.begin (session.circuit.join candidate))
  | .close => some (session.begin session.circuit.close)
  | .maintain => some (session.begin session.circuit.maintain)
  | .clean => some session.clean
  | .die link => some { session with closed := session.closed ++ [link] }
  | .wake place wake => do
    let call ← session.calls[place]?.join
    let turn ← call.resume session.circuit wake
    return session.take turn (session.calls.set place turn.call?)

def run? (session : Session) (moves : List Move) : Option Session := moves.foldlM step? session

inductive Reachable (kind : CircuitKind) (config : CircuitConfig) : Session → Prop
  | start : Reachable kind config (start kind config)
  | step {session after : Session} {move : Move} (reached : Reachable kind config session)
    (moved : session.step? move = some after) : Reachable kind config after

theorem mem_listed {calls : List (Option Call)} {hop : Hop} :
    hop ∈ listed calls ↔ ∃ call, some call ∈ calls ∧ hop ∈ call.listed := by
  simp only [listed, List.mem_flatMap]
  refine ⟨?_, fun ⟨call, member, inside⟩ => ⟨some call, member, inside⟩⟩
  rintro ⟨call, member, inside⟩
  cases call with
  | none => cases inside
  | some call => exact ⟨call, member, inside⟩

/-- A call takes a turn, before which it was going to close the listed hops. The other calls wait on. -/
structure Goes (session : Session) (turn : Turn) (listed : List Hop) (calls : List (Option Call)) : Prop where
  law : listed = [] ∧ turn.Grows session.circuit ∨ turn.Cuts session.circuit listed ∧
    (listed = session.circuit.hops.reverse ∨ some (.closing listed) ∈ session.calls)
  own : turn.call? ∈ calls
  known : ∀ call ∈ calls, call = turn.call? ∨ call ∈ session.calls
  others : ∀ call, some call ∈ session.calls → some call ∈ calls ∨ call.listed = listed

private theorem goes_begin (session : Session) {turn : Turn} {listed : List Hop}
    (law : listed = [] ∧ turn.Grows session.circuit ∨ turn.Cuts session.circuit listed ∧
      (listed = session.circuit.hops.reverse ∨ some (.closing listed) ∈ session.calls)) :
    session.Goes turn listed (session.calls ++ [turn.call?]) where
  law := law
  own := List.mem_append_right _ (List.mem_singleton_self _)
  known := fun _ member => (List.mem_append.mp member).symm.imp List.mem_singleton.mp id
  others := fun _ member => Or.inl (List.mem_append_left _ member)

private theorem goes_wake {session : Session} {place : Nat} {call : Call} {wake : Wake} {turn : Turn}
    (there : session.calls[place]? = some (some call)) (resumed : call.resume session.circuit wake = some turn) :
    session.Goes turn call.listed (session.calls.set place turn.call?) where
  law := by
    obtain grows | ⟨closing, cuts⟩ := session.circuit.resume_cuts_or_grows resumed
    · exact Or.inl grows
    · exact Or.inr ⟨cuts, Or.inr (closing ▸ List.mem_of_getElem? there)⟩
  own := List.mem_set (List.getElem?_eq_some_iff.mp there).1 _
  known := fun other member => (List.mem_or_eq_of_mem_set member).symm
  others := by
    intro other member
    obtain ⟨index, here⟩ := List.getElem?_of_mem member
    by_cases same : index = place
    · subst same
      cases Option.some.inj (here.symm.trans there)
      exact Or.inr rfl
    · apply Or.inl
      apply List.mem_of_getElem?
      rw [List.getElem?_set_ne (Ne.symm same), here]

theorem step?_cases {session after : Session} {move : Move} (moved : session.step? move = some after) :
    (∃ turn listed calls, session.Goes turn listed calls ∧ after = session.take turn calls) ∨
    after = session.clean ∨ ∃ link, after = { session with closed := session.closed ++ [link] } := by
  cases move with
  | join candidate =>
    cases moved
    exact Or.inl ⟨_, [], _, session.goes_begin (Or.inl ⟨rfl, session.circuit.join_grows candidate⟩), rfl⟩
  | close =>
    cases moved
    exact Or.inl ⟨_, _, _, session.goes_begin (Or.inr ⟨session.circuit.close_cuts, Or.inl rfl⟩), rfl⟩
  | maintain =>
    cases moved
    exact Or.inl ⟨_, [], _, session.goes_begin (Or.inl ⟨rfl, session.circuit.maintain_grows⟩), rfl⟩
  | clean =>
    cases moved
    exact Or.inr (Or.inl rfl)
  | die link =>
    cases moved
    exact Or.inr (Or.inr ⟨link, rfl⟩)
  | wake place wake =>
    obtain ⟨call, there, moved⟩ := Option.bind_eq_some_iff.mp moved
    obtain ⟨turn, resumed, moved⟩ := Option.bind_eq_some_iff.mp moved
    cases moved
    exact Or.inl ⟨turn, _, _, goes_wake (Option.join_eq_some_iff.mp there) resumed, rfl⟩

theorem step?_keeps {session after : Session} {move : Move} (moved : session.step? move = some after) :
    session.joined ⊆ after.joined ∧ session.closed ⊆ after.closed := by
  obtain ⟨turn, _, _, _, rfl⟩ | rfl | ⟨link, rfl⟩ := step?_cases moved
  · exact ⟨List.subset_append_left _ _, List.subset_append_left _ _⟩
  · exact ⟨List.Subset.refl _, List.subset_append_left _ _⟩
  · exact ⟨List.Subset.refl _, List.subset_append_left _ _⟩

theorem step?_announcing {session after : Session} {move : Move} (moved : session.step? move = some after) {place : Nat}
    {last new : Hop} (here : session.calls[place]? = some (some (.announcing last new))) :
    after.calls[place]? = some (some (.announcing last new)) ∨ new ∈ after.joined ∨ new.link.ref ∈ after.closed := by
  have waits (turn : Turn) : (session.begin turn).calls[place]? = some (some (.announcing last new)) := by
    change (session.calls ++ [turn.call?])[place]? = _
    rw [List.getElem?_append_left (List.getElem?_eq_some_iff.mp here).1, here]
  cases move with
  | join candidate =>
    cases moved
    exact Or.inl (waits _)
  | close =>
    cases moved
    exact Or.inl (waits _)
  | maintain =>
    cases moved
    exact Or.inl (waits _)
  | clean =>
    cases moved
    exact Or.inl here
  | die link =>
    cases moved
    exact Or.inl here
  | wake other wake =>
    obtain ⟨call, there, moved⟩ := Option.bind_eq_some_iff.mp moved
    obtain ⟨turn, resumed, moved⟩ := Option.bind_eq_some_iff.mp moved
    cases moved
    by_cases same : other = place
    · subst same
      cases (Option.join_eq_some_iff.mp there).symm.trans here
      have fate (answer : Option Verdict) (result : turn = session.circuit.announced last new answer) :
          new ∈ session.joined ++ turn.newcomer?.toList ∨ new.link.ref ∈ session.closed ++ turn.closings := by
        obtain joins | closes := session.circuit.announced_fate last new answer
        · exact Or.inl (List.mem_append_right _ (Option.mem_toList.mpr (result ▸ joins)))
        · exact Or.inr (List.mem_append_right _ (result ▸ closes))
      cases wake with
      | setup answer => exact Or.inr (fate answer (Option.some.inj resumed).symm)
      | cancelled => exact Or.inr (fate none (Option.some.inj resumed).symm)
      | ready => cases resumed
      | ping answer => cases resumed
    · apply Or.inl
      change (session.calls.set other turn.call?)[place]? = _
      rw [List.getElem?_set_ne same, here]

/-- All hops that have joined or are being added are reached over links of one kind. -/
structure Within (session : Session) (usual : Link → Prop) : Prop where
  joined : ∀ hop ∈ session.joined, usual hop.link
  adding : ∀ call, some call ∈ session.calls → ∀ link, call.newLink? = some link → usual link

theorem Within.step {session after : Session} {move : Move} {usual : Link → Prop} (within : session.Within usual)
    (moved : session.step? move = some after) (joins : ∀ candidate, move = .join candidate → usual candidate.link) :
    after.Within usual := by
  have take (turn : Turn) (calls : List (Option Call)) (known : ∀ call ∈ calls, call = turn.call? ∨ call ∈ session.calls)
      (own : ∀ link ∈ turn.newLinks, usual link) : (session.take turn calls).Within usual := by
    constructor
    · intro hop member
      obtain before | new := List.mem_append.mp member
      · exact within.joined hop before
      · exact own hop.link (List.mem_append_left _ (List.mem_map_of_mem new))
    · intro call member link adds
      obtain mine | before := known _ member
      · apply own link
        apply List.mem_append_right
        rw [← mine, Option.mem_toList]
        exact adds
      · exact within.adding call before link adds
  have begins (turn : Turn) (own : ∀ link ∈ turn.newLinks, usual link) : (session.begin turn).Within usual :=
    take turn _ (fun _ member => (List.mem_append.mp member).symm.imp List.mem_singleton.mp id) own
  cases move with
  | join candidate =>
    cases moved
    apply begins
    intro link member
    rw [session.circuit.join_links candidate member]
    exact joins candidate rfl
  | close =>
    cases moved
    exact begins _ fun link member => absurd member (session.circuit.tearDown_links _ _ link)
  | maintain =>
    cases moved
    exact begins _ fun link member => absurd member (session.circuit.pingNext_links _ _ link)
  | clean =>
    cases moved
    exact ⟨within.joined, within.adding⟩
  | die link =>
    cases moved
    exact ⟨within.joined, within.adding⟩
  | wake place wake =>
    obtain ⟨call, there, moved⟩ := Option.bind_eq_some_iff.mp moved
    obtain ⟨turn, resumed, moved⟩ := Option.bind_eq_some_iff.mp moved
    cases moved
    have here := List.mem_of_getElem? (Option.join_eq_some_iff.mp there)
    apply take turn _ (fun _ member => (List.mem_or_eq_of_mem_set member).symm)
    intro link member
    exact within.adding call here link (session.circuit.resume_links resumed member)

theorem clean_cuts (session : Session) : session.clean.circuit.hops <+: session.circuit.hops ∧
    ∀ hop ∈ session.circuit.hops, hop ∈ session.clean.circuit.hops ∨ hop.link.ref ∈ session.clean.closed := by
  unfold clean Circuit.clean
  simp only
  split
  next => exact ⟨List.prefix_rfl, fun _ member => Or.inl member⟩
  next =>
    refine ⟨List.takeWhile_prefix _, ?_⟩
    intro hop member
    rw [← @List.takeWhile_append_dropWhile _ (fun hop : Hop => !session.isClosed hop.link.ref) session.circuit.hops,
      List.mem_append] at member
    obtain kept | removed := member
    · exact Or.inl kept
    · apply Or.inr
      simp only [List.filterMap_map, List.mem_append, List.mem_filterMap]
      exact Or.inr ⟨hop, removed, rfl⟩

theorem Reachable.run {kind : CircuitKind} {config : CircuitConfig} {session after : Session} {moves : List Move}
    (reached : Reachable kind config session) (ran : session.run? moves = some after) : Reachable kind config after := by
  induction moves generalizing session with
  | nil =>
    cases ran
    exact reached
  | cons move moves ih =>
    obtain ⟨middle, moved, rest⟩ := Option.bind_eq_some_iff.mp ran
    exact ih (reached.step moved) rest

end Session
end OnionCircuit
