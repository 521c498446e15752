import OnionCircuit.Proofs.ChainGrowth

/-! What the hops of a circuit were told about the hops behind them. An announcement takes effect while its call still
waits for the answer, or never; of all that a hop has accepted the last announcement counts. -/

namespace OnionCircuit

/-- What a hop is told about the one that follows. -/
def Hop.announcement (last new : Hop) : SetupBlock := ⟨last.innerId, new.endpoint, new.key⟩

/-- What a call asks of the far end of a link, and over which link. -/
def Call.request? : Call → Option (LinkRef × SetupBlock)
  | .announcing last new => some (last.link.ref, last.announcement new)
  | _ => none

/-- What the far end of a link has made of the request of a call. -/
structure SetupReply where
  call : Nat
  link : LinkRef
  block : SetupBlock
  verdict : Verdict
deriving DecidableEq

structure Dialogue where
  session : Session
  /-- In the order in which the requests took effect. -/
  replies : List SetupReply
deriving DecidableEq

namespace Dialogue
open Circuit (numberedHop)

inductive Event
  | client (move : Move)
  /-- The request of a call takes effect. The answer may still be lost, or come too late. -/
  | reply (place : Nat) (verdict : Verdict)

def start (kind : CircuitKind) (config : CircuitConfig) : Dialogue := ⟨Session.start kind config, []⟩

/-- An answer that arrives has been given. -/
def Allows (dialogue : Dialogue) : Move → Prop
  | .wake place (.setup (some verdict)) => ∃ reply ∈ dialogue.replies, reply.call = place ∧ reply.verdict = verdict
  | _ => True

instance (dialogue : Dialogue) : (move : Move) → Decidable (dialogue.Allows move)
  | .wake place (.setup (some verdict)) =>
    inferInstanceAs (Decidable (∃ reply ∈ dialogue.replies, reply.call = place ∧ reply.verdict = verdict))
  | .wake _ .ready | .wake _ (.setup none) | .wake _ (.ping _) | .wake _ .cancelled => .isTrue trivial
  | .join _ | .close | .maintain | .clean | .die _ => .isTrue trivial

def asked? (dialogue : Dialogue) (place : Nat) : Option (LinkRef × SetupBlock) :=
  dialogue.session.calls[place]?.join.bind Call.request?

def step? (dialogue : Dialogue) : Event → Option Dialogue
  | .client move =>
    if dialogue.Allows move then
      (dialogue.session.step? move).map fun session => { dialogue with session := session }
    else none
  | .reply place verdict => do
    let (link, block) ← dialogue.asked? place
    if dialogue.replies.any fun reply => reply.call = place then none
    else return { dialogue with replies := dialogue.replies ++ [⟨place, link, block, verdict⟩] }

def run? (dialogue : Dialogue) (events : List Event) : Option Dialogue := events.foldlM step? dialogue

inductive Reachable (kind : CircuitKind) (config : CircuitConfig) : Dialogue → Prop
  | start : Reachable kind config (start kind config)
  | step {dialogue after : Dialogue} {event : Event} (reached : Reachable kind config dialogue)
    (happened : dialogue.step? event = some after) : Reachable kind config after

/-- The replies with which a hop has accepted an announcement for its inner id. -/
def accepted (dialogue : Dialogue) (hop : Hop) : List SetupReply :=
  dialogue.replies.filter fun reply =>
    reply.link = hop.link.ref ∧ reply.block.innerId = hop.innerId ∧ reply.verdict = .success

/-- What a hop has accepted last. -/
def told? (dialogue : Dialogue) (hop : Hop) : Option SetupBlock := (dialogue.accepted hop).getLast?.map SetupReply.block

/-- Every hop with a successor was told of it last, and so was the hop whose acceptance is on its way. -/
structure Informed (kind : CircuitKind) (config : CircuitConfig) (dialogue : Dialogue) : Prop where
  guarded : dialogue.session.Guarded kind config
  successors : ∀ inner outer, [inner, outer] <:+: dialogue.session.circuit.hops →
    dialogue.told? inner = some (inner.announcement outer)
  pending : ∀ place last new, dialogue.session.Announces place last new →
    ∀ reply ∈ dialogue.replies, reply.call = place → reply.verdict = .success →
      dialogue.told? last = some (last.announcement new)
  started : ∀ reply ∈ dialogue.replies, ∃ call, dialogue.session.calls[reply.call]? = some call ∧
    ∀ candidate, call ≠ some (.joining candidate)

section
variable {kind : CircuitKind} {config : CircuitConfig} {dialogue after : Dialogue}

theorem told?_reply (place : Nat) (link : LinkRef) (block : SetupBlock) (verdict : Verdict) (hop : Hop) :
    { dialogue with replies := dialogue.replies ++ [SetupReply.mk place link block verdict] }.told? hop =
      if link = hop.link.ref ∧ block.innerId = hop.innerId ∧ verdict = .success then some block else dialogue.told? hop := by
  unfold told? accepted
  simp only [List.filter_append, List.filter_cons, List.filter_nil]
  split
  next same =>
    rw [if_pos (decide_eq_true_iff.mp same), List.getLast?_concat]
    rfl
  next other =>
    rw [if_neg fun same => other (decide_eq_true same), List.append_nil]

/-- Two hops in a row at the end of a longer circuit are the old last one and the new one. -/
private theorem infix_concat {hops : List Hop} {inner outer new : Hop} (together : [inner, outer] <:+: hops ++ [new]) :
    [inner, outer] <:+: hops ∨ hops.getLast? = some inner ∧ outer = new := by
  obtain ending | before := List.infix_concat_iff.mp together
  · obtain none | ⟨rest, same, behind⟩ := List.suffix_concat_iff.mp ending
    · cases none
    · obtain ⟨rfl, rfl⟩ : rest = [inner] ∧ outer = new := by
        have split : [inner] ++ [outer] = rest ++ [new] := same
        exact (List.append_inj' split rfl).imp Eq.symm fun last => (List.cons.inj last).1
      obtain ⟨front, rfl⟩ := behind
      exact Or.inr ⟨List.getLast?_concat, rfl⟩
  · exact Or.inl before

/-- A hop that another one follows has not the inner id of the last one. -/
private theorem innerId_ne_last {hops : List Hop} (chained : Chained hops) {inner outer last : Hop}
    (together : [inner, outer] <:+: hops) (ends : hops.getLast? = some last) : inner.innerId ≠ last.innerId := by
  obtain ⟨front, back, rfl⟩ := together
  have split : front ++ [inner, outer] ++ back = (front ++ [inner]) ++ outer :: back := by simp
  rw [split] at ends chained
  rw [List.getLast?_append, List.getLast?_cons, Option.some_or] at ends
  have behind : last ∈ outer :: back := List.mem_of_getLast? (List.getLast?_cons.trans ends)
  have distinct := chained.distinct
  rw [List.flatMap_append, List.nodup_append] at distinct
  have own : inner.innerId ∈ (front ++ [inner]).flatMap fun hop => [hop.innerId, hop.outerId] := by simp
  have other : last.innerId ∈ (outer :: back).flatMap fun hop => [hop.innerId, hop.outerId] :=
    List.mem_flatMap.mpr ⟨last, behind, List.mem_cons_self⟩
  exact distinct.2.2 _ own _ other

/-- A call that does not wait for its turn to add a hop will not do so later either. -/
private theorem started_step {session after : Session} {move : Move} (moved : session.step? move = some after)
    {place : Nat} {call : Option Call} (here : session.calls[place]? = some call)
    (started : ∀ candidate, call ≠ some (.joining candidate)) :
    ∃ later, after.calls[place]? = some later ∧ ∀ candidate, later ≠ some (.joining candidate) := by
  have begins (turn : Turn) : (session.begin turn).calls[place]? = some call := by
    change (session.calls ++ [turn.call?])[place]? = some call
    rw [List.getElem?_append_left (List.getElem?_eq_some_iff.mp here).1, here]
  cases move with
  | join candidate =>
    cases moved
    exact ⟨call, begins _, started⟩
  | close =>
    cases moved
    exact ⟨call, begins _, started⟩
  | maintain =>
    cases moved
    exact ⟨call, begins _, started⟩
  | clean =>
    cases moved
    exact ⟨call, here, started⟩
  | die link =>
    cases moved
    exact ⟨call, here, started⟩
  | wake other wake =>
    obtain ⟨woken, there, moved⟩ := Option.bind_eq_some_iff.mp moved
    obtain ⟨turn, resumed, moved⟩ := Option.bind_eq_some_iff.mp moved
    cases moved
    change ∃ later, (session.calls.set other turn.call?)[place]? = some later ∧ _
    by_cases same : other = place
    · subst same
      obtain rfl := Option.some.inj (here.symm.trans (Option.join_eq_some_iff.mp there))
      refine ⟨turn.call?, List.getElem?_set_self (List.getElem?_eq_some_iff.mp here).1, ?_⟩
      intro candidate joining
      obtain ⟨first, rfl⟩ := session.circuit.resume_joining resumed joining
      exact started first rfl
    · rw [List.getElem?_set_ne same]
      exact ⟨call, here, started⟩

theorem Informed.reply (informed : dialogue.Informed kind config) {place : Nat} {last new : Hop} {verdict : Verdict}
    (here : dialogue.session.Announces place last new) (first : ∀ reply ∈ dialogue.replies, reply.call ≠ place) :
    { dialogue with replies := dialogue.replies ++
      [SetupReply.mk place last.link.ref (last.announcement new) verdict] }.Informed kind config where
  guarded := informed.guarded
  successors := by
    intro inner outer together
    rw [told?_reply, if_neg]
    · exact informed.successors inner outer together
    · rintro ⟨_, same, _⟩
      -- An inner hop cannot be meant: `last` was the end of the hops that were judged, and they share no id.
      obtain ⟨judged, judged_prefix, ends, _, chained⟩ := informed.guarded.awaits place last new here
      have apart := innerId_ne_last (chained.of_prefix (List.prefix_append judged [new]))
        (together.trans judged_prefix.isInfix) ends
      exact apart same.symm
  pending := by
    intro other inner outer announcing reply member own accepts
    obtain rfl := informed.guarded.alone _ _ _ _ _ _ here announcing
    cases Option.some.inj (Option.some.inj (here.symm.trans announcing))
    obtain before | rfl := (List.mem_append.mp member).imp_right List.mem_singleton.mp
    · exact absurd own (first reply before)
    · rw [told?_reply, if_pos ⟨rfl, rfl, accepts⟩]
  started := by
    intro reply member
    obtain before | rfl := (List.mem_append.mp member).imp_right List.mem_singleton.mp
    · exact informed.started reply before
    · exact ⟨_, here, fun _ joining => nomatch joining⟩

theorem Informed.client (informed : dialogue.Informed kind config) {move : Move} {session : Session}
    (allowed : dialogue.Allows move) (moved : dialogue.session.step? move = some session) :
    { dialogue with session := session }.Informed kind config := by
  have guarded := informed.guarded.step moved
  have started (reply : SetupReply) (member : reply ∈ dialogue.replies) : ∃ call, session.calls[reply.call]? = some call ∧
      ∀ candidate, call ≠ some (.joining candidate) := by
    obtain ⟨call, here, started⟩ := informed.started reply member
    exact started_step moved here started
  cases Session.step?_growth informed.guarded.sound.chained moved with
  | rests shortens same =>
    refine ⟨guarded, ?_, ?_, started⟩
    · intro inner outer together
      exact informed.successors inner outer (together.trans shortens.hops.isInfix)
    · intro place last new announcing
      exact informed.pending place last new ((same place last new).mp announcing)
  | founds new empty _ grown _ same =>
    refine ⟨guarded, ?_, ?_, started⟩
    · intro inner outer together
      rw [grown, Circuit.hops_withHops, empty] at together
      obtain before | ⟨last, _⟩ := infix_concat together
      · exact absurd before.length_le (by simp)
      · cases last
    · intro place last new announcing
      exact informed.pending place last new ((same place last new).mp announcing)
  | announces place last new ends _ locked _ starts opened =>
    refine ⟨guarded, ?_, ?_, started⟩
    · intro inner outer together
      rw [locked] at together
      exact informed.successors inner outer together
    · intro other inner outer announcing reply member own
      obtain ⟨rfl, rfl, rfl⟩ | ⟨_, before⟩ := (opened other inner outer).mp announcing
      · -- A call that announces only now has no reply yet.
        obtain ⟨call, there, not_joining⟩ := informed.started reply member
        obtain ⟨candidate, joining⟩ := starts call (own ▸ there)
        exact absurd joining (not_joining candidate)
      · exact informed.pending other inner outer before reply member own
  | joins place last new here accepted ends grown ended =>
    obtain ⟨still, _⟩ := (informed.guarded.awaits place last new here).unchanged ends
    subst accepted
    obtain ⟨reply, member, own, accepts⟩ := allowed
    refine ⟨guarded, ?_, ?_, started⟩
    · intro inner outer together
      rw [grown, Circuit.hops_withHops] at together
      obtain before | ⟨before, rfl⟩ := infix_concat together
      · exact informed.successors inner outer before
      · obtain rfl := Option.some.inj (still.symm.trans before)
        exact informed.pending place last outer here reply member own accepts
    · intro other inner outer announcing
      exact absurd announcing (informed.guarded.nobody here ended other inner outer)
  | fails place last new here freed ended =>
    refine ⟨guarded, ?_, ?_, started⟩
    · intro inner outer together
      rw [freed] at together
      exact informed.successors inner outer together
    · intro other inner outer announcing
      exact absurd announcing (informed.guarded.nobody here ended other inner outer)

theorem Informed.step (informed : dialogue.Informed kind config) {event : Event}
    (happened : dialogue.step? event = some after) : after.Informed kind config := by
  cases event with
  | client move =>
    simp only [step?] at happened
    split at happened
    next allowed =>
      obtain ⟨session, moved, rfl⟩ := Option.map_eq_some_iff.mp happened
      exact informed.client allowed moved
    next => cases happened
  | reply place verdict =>
    obtain ⟨⟨link, block⟩, asks, happened⟩ := Option.bind_eq_some_iff.mp happened
    obtain ⟨call, there, asks⟩ := Option.bind_eq_some_iff.mp asks
    simp only at happened
    split at happened
    next => cases happened
    next first =>
      cases happened
      cases call with
      | announcing last new =>
        cases asks
        apply informed.reply (Option.join_eq_some_iff.mp there)
        intro reply member own
        exact first (List.any_eq_true.mpr ⟨reply, member, decide_eq_true own⟩)
      | joining candidate => cases asks
      | closing hops => cases asks
      | pinging hops answered => cases asks

theorem Reachable.informed (reached : Reachable kind config dialogue) : dialogue.Informed kind config := by
  induction reached with
  | start =>
    refine ⟨Session.Reachable.start.guarded, ?_, fun _ _ _ _ _ member => (nomatch member), fun _ member => (nomatch member)⟩
    intro inner outer together
    have empty : (Dialogue.start kind config).session.circuit.hops = [] := rfl
    rw [empty] at together
    cases List.infix_nil.mp together
  | step _ happened ih => exact ih.step happened

theorem Reachable.run {events : List Event} (reached : Reachable kind config dialogue)
    (ran : dialogue.run? events = some after) : Reachable kind config after := by
  induction events generalizing dialogue with
  | nil =>
    cases ran
    exact reached
  | cons event events ih =>
    obtain ⟨middle, happened, rest⟩ := Option.bind_eq_some_iff.mp ran
    exact ih (reached.step happened) rest

private theorem request?_of_join {circuit : Circuit} {candidate : Candidate} {link : Link} {block : SetupBlock} {call : Call}
    (waits : (circuit.join candidate).next = .waiting (.setup link block) call) :
    call.request? = some (link.ref, block) := by
  unfold Circuit.join at waits
  split at waits
  next => cases waits
  next =>
    simp only at waits
    split at waits
    next => cases waits
    next =>
      split at waits
      next =>
        unfold Circuit.commit at waits
        simp only at waits
        split at waits <;> cases waits
      next last ends =>
        cases waits
        rfl

private theorem tearDown_waits (circuit : Circuit) (hurried : Bool) (hops : List Hop) (link : Link) (block : SetupBlock)
    (call : Call) : (circuit.tearDown hurried hops).next ≠ .waiting (.setup link block) call := by
  induction hops generalizing circuit with
  | nil =>
    intro waits
    cases waits
  | cons hop inner ih =>
    unfold Circuit.tearDown
    simp only
    split
    · exact ih _
    · intro waits
      cases waits

/-- What a call waits for an answer to is its request. -/
private theorem request?_of_waits {session : Session} {move : Move} {turn : Turn} (takes : session.turn? move = some turn)
    {link : Link} {block : SetupBlock} {call : Call} (waits : turn.next = .waiting (.setup link block) call) :
    call.request? = some (link.ref, block) := by
  obtain ⟨candidate, rfl⟩ | ⟨last, new, answer, rfl⟩ | ⟨hurried, hops, rfl⟩ | ⟨answered, hops, rfl⟩ :=
    Session.turn?_cases takes
  · exact request?_of_join waits
  · have ended := session.circuit.announced_call last new answer
    rw [Turn.call?, waits] at ended
    cases ended
  · exact absurd waits (tearDown_waits _ _ _ _ _ _)
  · cases hops <;> cases waits

/-- The last announcement for its inner id that a hop has accepted is the one of the hop behind it: none that it accepted
later, for a hop that then did not join, has taken its place. -/
theorem told_of_successor (reached : Reachable kind config dialogue) :
    (∀ inner outer, [inner, outer] <:+: dialogue.session.circuit.hops →
      dialogue.told? inner = some ⟨inner.innerId, outer.endpoint, outer.key⟩) ∧
    ∀ move turn link block call, dialogue.session.turn? move = some turn → turn.next = .waiting (.setup link block) call →
      call.request? = some (link.ref, block) :=
  ⟨reached.informed.successors, fun _ _ _ _ _ takes waits => request?_of_waits takes waits⟩

end

/-- A hop accepts one announcement whose answer comes too late, and then another one. -/
theorem told_of_successor_late : ∃ dialogue, Reachable .outgoing {} dialogue ∧
    dialogue.session.circuit.hops = [numberedHop 1, numberedHop 3] ∧
    dialogue.replies.map (·.block) =
      [(numberedHop 1).announcement (numberedHop 2), (numberedHop 1).announcement (numberedHop 3)] ∧
    dialogue.told? (numberedHop 1) = some ((numberedHop 1).announcement (numberedHop 3)) := by
  let events : List Event := [.client (.join (numberedHop 1).candidate), .client (.join (numberedHop 2).candidate),
    .reply 1 .success, .client (.wake 1 .cancelled), .client (.join (numberedHop 3).candidate), .reply 2 .success,
    .client (.wake 2 (.setup (some .success)))]
  cases ran : (start .outgoing {}).run? events with
  | none => cases ran
  | some dialogue =>
    have reached : Reachable .outgoing {} dialogue := Reachable.start.run ran
    cases ran
    obtain ⟨told, _⟩ := told_of_successor reached
    exact ⟨_, reached, rfl, rfl, told (numberedHop 1) (numberedHop 3) List.infix_rfl⟩

end Dialogue
end OnionCircuit
