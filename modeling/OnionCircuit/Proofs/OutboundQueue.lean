import OnionCircuit.Proofs.AgentHistory

/-! What waits in the queue of an agent. A packet that is sent on becomes one datagram, which the queue takes or refuses;
it gives back what it took, in the same order. -/

namespace OnionCircuit
namespace Agent

instance (agent : Agent) (content : Bytes) (now : Micros) : Decidable (agent.Overflows content now) :=
  inferInstanceAs (Decidable (_ ∧ ¬ _))

/-- The datagram that an accepted packet becomes, if it is to be sent on. -/
def becomes? (agent : Agent) (resolve : Resolver) (accepted : Accepted) (now : Micros) : Reading → Option Outbound
  | .passing packet => some packet
  | .leaving address content =>
    if agent.Overflows content now then none
    else (agent.cache.lookup resolve address).endpoint.map fun endpoint =>
      ⟨endpoint.socket, (RelayIds.mk accepted.exchange.outerId endpoint.relayId).bytes ++ content⟩
  | _ => none

def parcel? (agent : Agent) : Operation → Option Outbound
  | .process resolve salt sender relayId datagram now =>
    (agent.accepted? sender relayId datagram now).bind fun accepted =>
      agent.becomes? resolve accepted now (accepted.reading salt datagram)
  | _ => none

end Agent

/-- Whether an outcome is the queue's answer. -/
def RelayOutcome.atQueue : RelayOutcome → Bool
  | .forwarded _ | .dropped .queueFull | .dropped .tooLarge => true
  | _ => false

namespace Agent
variable {agent : Agent} {operation : Operation}

private theorem reading_reason {accepted : Accepted} {salt : UInt32} {datagram : Bytes} {reason : DropReason}
    (unreadable : accepted.reading salt datagram = .unreadable reason) :
    (RelayOutcome.dropped reason).atQueue = false := by
  have toward {key : TagKey} {source : RelayId} {next : Endpoint} {packet : Bytes}
      (fails : Reading.toward key source next packet = .unreadable reason) :
      (RelayOutcome.dropped reason).atQueue = false := by
    unfold Reading.toward at fails
    split at fails <;> cases fails
    rfl
  obtain ⟨exchange, passage⟩ := accepted
  cases passage with
  | outward =>
    simp only [Accepted.reading, Exchange.readOutward] at unreadable
    split at unreadable
    · cases unreadable
      rfl
    · split at unreadable
      · split at unreadable
        · cases unreadable
          rfl
        · split at unreadable <;> cases unreadable
      · split at unreadable
        · cases unreadable
          rfl
        · exact toward unreadable
  | relayed next =>
    simp only [Accepted.reading, Exchange.readRelayed] at unreadable
    split at unreadable
    · cases unreadable
      rfl
    · split at unreadable
      · cases unreadable
        rfl
      · exact toward unreadable
  | entering sender =>
    simp only [Accepted.reading, Exchange.readEntering] at unreadable
    exact toward unreadable

/-- Only the limits of an agent and its queue matter for what becomes of an offer. -/
theorem Offers.enqueued {done : Processed} {packet : Outbound} (offers : agent.Offers done packet) :
    done.value = .ok (agent.enqueue packet.socket packet.datagram).2 ∧
      done.agent.queue = (agent.enqueue packet.socket packet.datagram).1.queue := by
  obtain ⟨charged, config, queue, after, value⟩ := offers
  rw [after, value]
  unfold enqueue
  rw [config, queue]
  split
  · exact ⟨rfl, queue⟩
  · split
    · exact ⟨rfl, queue⟩
    · exact ⟨rfl, rfl⟩

theorem exit_unresolvable {resolve : Resolver} {address : Address}
    (unknown : (agent.cache.lookup resolve address).endpoint = none) (source : RelayId) (content : Bytes) (now : Micros) :
    let done := agent.exit resolve source address content now
    done.value = .ok (.dropped .unresolvable) ∧ done.agent.queue = agent.queue := by
  simp only [exit, unknown]
  exact ⟨rfl, rfl⟩

theorem exit_overflows {resolve : Resolver} {address : Address} {endpoint : Endpoint} {content : Bytes}
    {now : Micros} (known : (agent.cache.lookup resolve address).endpoint = some endpoint)
    (overflows : agent.Overflows content now) (source : RelayId) :
    let done := agent.exit resolve source address content now
    done.value = .error .addition ∧ done.agent.queue = agent.queue := by
  obtain ⟨connects, range⟩ := overflows
  simp only [exit, known, connects, if_true, Checked.add, range, if_false]
  exact ⟨trivial, trivial⟩

theorem exit_offers {resolve : Resolver} {address : Address} {endpoint : Endpoint} {content : Bytes}
    {now : Micros} (known : (agent.cache.lookup resolve address).endpoint = some endpoint)
    (fits : ¬ agent.Overflows content now) (source : RelayId) :
    agent.Offers (agent.exit resolve source address content now)
      ⟨endpoint.socket, (RelayIds.mk source endpoint.relayId).bytes ++ content⟩ := by
  by_cases connects : ContentKind.ofContent? content = some .connect
  · have range : Checked.InRange (now.toInt + agent.config.endpointRetention.toInt) :=
      Decidable.not_not.mp fun outside => fits ⟨connects, outside⟩
    simp only [exit, known, connects, if_true, Checked.add, range]
    refine ⟨_, ?_, ?_, rfl, rfl⟩ <;> rfl
  · simp only [exit, known, connects, if_false]
    refine ⟨_, ?_, ?_, rfl, rfl⟩ <;> rfl

/-- A packet that becomes no datagram leaves the queue alone, and is not said to be in it or kept out of it. -/
structure Unsent (agent : Agent) (done : Processed) : Prop where
  queue : done.agent.queue = agent.queue
  outcome : ∀ outcome, done.value = .ok outcome → outcome.atQueue = false

private theorem act_becomes (resolve : Resolver) (accepted : Accepted) (salt : UInt32) (datagram : Bytes) (now : Micros) :
    let done := agent.act resolve accepted now (accepted.reading salt datagram)
    match agent.becomes? resolve accepted now (accepted.reading salt datagram) with
    | some packet => agent.Offers done packet
    | none => agent.Unsent done := by
  cases reads : accepted.reading salt datagram with
  | unreadable reason =>
    refine ⟨rfl, fun outcome same => ?_⟩
    cases same
    exact reading_reason reads
  | arrived content =>
    refine ⟨rfl, fun outcome same => ?_⟩
    cases same
    rfl
  | passing packet => exact ⟨agent, rfl, rfl, rfl, rfl⟩
  | leaving address content =>
    simp only [becomes?, act]
    cases known : (agent.cache.lookup resolve address).endpoint with
    | none =>
      obtain ⟨value, queue⟩ := exit_unresolvable known accepted.exchange.outerId content now
      simp only [Option.map_none, ite_self]
      refine ⟨queue, fun outcome same => ?_⟩
      rw [value] at same
      cases same
      rfl
    | some endpoint =>
      by_cases overflows : agent.Overflows content now
      · obtain ⟨value, queue⟩ := exit_overflows known overflows accepted.exchange.outerId
        simp only [overflows, if_true]
        refine ⟨queue, fun outcome same => ?_⟩
        rw [value] at same
        cases same
      · simp only [overflows, if_false, Option.map_some]
        exact exit_offers known overflows accepted.exchange.outerId

section Process
variable {resolve : Resolver} {salt : UInt32} {sender : Endpoint} {relayId : RelayId} {datagram : Bytes} {now : Micros}

private theorem becomes?_atGate {guarded : Agent} (atGate : agent.AtGate sender relayId datagram now guarded)
    {accepted : Accepted} (accepts : agent.accepted? sender relayId datagram now = some accepted) :
    guarded.becomes? resolve accepted now (accepted.reading salt datagram) =
      agent.becomes? resolve accepted now (accepted.reading salt datagram) := by
  cases reads : accepted.reading salt datagram with
  | leaving address content =>
    have exits := (exit?_eq_some salt now).mpr ⟨accepted, accepts, reads⟩
    simp only [becomes?, atGate.overflows_iff, atGate.same_cache exits]
  | unreadable | arrived | passing => rfl

theorem process_parcel (agent : Agent) (resolve : Resolver) (salt : UInt32) (sender : Endpoint) (relayId : RelayId)
    (datagram : Bytes) (now : Micros) :
    let done := agent.process resolve salt sender relayId datagram now
    match agent.parcel? (.process resolve salt sender relayId datagram now) with
    | some packet => agent.Offers done packet
    | none => agent.Unsent done := by
  simp only [parcel?]
  cases accepts : agent.accepted? sender relayId datagram now with
  | none =>
    obtain ⟨atGate, refusal⟩ := process_turns_away accepts resolve salt
    refine ⟨atGate.queue, fun outcome same => ?_⟩
    generalize (agent.process resolve salt sender relayId datagram now).value = value at refusal same
    cases refusal with
    | short few =>
      cases same
      rfl
    | @gate reason early =>
      cases same
      cases reason <;> first | rfl | cases early
    | fault found fails => cases same
  | some accepted =>
    obtain ⟨guarded, atGate, after, value⟩ := process_accepts accepts resolve salt
    have acts := guarded.act_becomes resolve accepted salt datagram now
    simp only [becomes?_atGate atGate accepts] at acts
    simp only [Option.bind_some]
    split
    next packet becomes =>
      rw [becomes] at acts
      obtain ⟨charged, config, queue, agent', value'⟩ := acts
      exact ⟨charged, config.trans atGate.config, queue.trans atGate.queue, after.trans agent', value.trans value'⟩
    next stays =>
      rw [stays] at acts
      exact ⟨(congrArg Agent.queue after).trans (acts.queue.trans atGate.queue), value ▸ acts.outcome⟩

end Process

/-- What leaves for an endpoint becomes a datagram, unless the agent fails to note until when the endpoint may answer. -/
theorem Exits.parcel? {address : Address} {content : Bytes} {now : Micros}
    (exits : agent.Exits operation address content now) :
    (agent.Overflows content now → agent.fault? operation = some .addition) ∧
    (¬ agent.Overflows content now → ∃ packet, agent.parcel? operation = some packet) := by
  obtain ⟨resolve, salt, sender, relayId, datagram, rfl, leaves, resolves⟩ := exits
  obtain ⟨endpoint, known⟩ := Option.isSome_iff_exists.mp resolves
  obtain ⟨accepted, accepts, reads⟩ := (exit?_eq_some salt now).mp leaves
  constructor
  · intro overflows
    obtain ⟨guarded, atGate, _, value⟩ := process_accepts accepts resolve salt
    rw [← atGate.same_cache leaves] at known
    rw [reads, act, (exit_overflows known (atGate.overflows_iff.mpr overflows) accepted.exchange.outerId).1] at value
    rw [fault?, value]
    rfl
  · intro fits
    rw [parcel?, accepts, Option.bind_some, reads, becomes?, if_neg fits, known]
    exact ⟨_, rfl⟩

theorem parcel?_enqueued {packet : Outbound} (becomes : agent.parcel? operation = some packet) :
    agent.outcome? operation = some (agent.enqueue packet.socket packet.datagram).2 ∧
      (agent.after operation).queue = (agent.enqueue packet.socket packet.datagram).1.queue := by
  cases operation with
  | process resolve salt sender relayId datagram now =>
    have offers := agent.process_parcel resolve salt sender relayId datagram now
    simp only [becomes] at offers
    obtain ⟨value, queue⟩ := offers.enqueued
    rw [outcome?, value]
    exact ⟨rfl, queue⟩
  | _ => cases becomes

/-- The datagrams that an operation takes out of the queue, in order. -/
def handsOut (agent : Agent) : Operation → List Outbound
  | .next => agent.next?.2.toList
  | .drain => agent.drain.2
  | _ => []

/-- What a packet that is forwarded becomes, for the socket that is reported. -/
def sends (agent : Agent) (operation : Operation) : List Outbound :=
  match agent.outcome? operation, agent.parcel? operation with
  | some (.forwarded socket), some packet => [⟨socket, packet.datagram⟩]
  | _, _ => []

/-- What an operation may do to the queue: take from its front, or put one datagram at its end. -/
inductive Queues (agent : Agent) (operation : Operation) : List Outbound → Prop
  | takes {front back : List Outbound} (queue : agent.queue = front ++ back) (out : agent.handsOut operation = front)
    (unsent : agent.sends operation = []) : Queues agent operation back
  | puts {packet : Outbound} (out : agent.handsOut operation = []) (sent : agent.sends operation = [packet])
    (small : packet.datagram.length ≤ Datagram.largest) (room : agent.HasRoom) :
    Queues agent operation (agent.queue ++ [packet])

theorem enqueue_cases (agent : Agent) (packet : Outbound) :
    (∃ reason, agent.enqueue packet.socket packet.datagram = (agent, .dropped reason) ∧
      (reason = .tooLarge ∨ reason = .queueFull ∧ agent.config.queueCapacity.toNat ≤ agent.queue.length)) ∨
    packet.datagram.length ≤ Datagram.largest ∧ agent.HasRoom ∧
      (agent.enqueue packet.socket packet.datagram).2 = .forwarded packet.socket ∧
      (agent.enqueue packet.socket packet.datagram).1.queue = agent.queue ++ [packet] := by
  unfold enqueue HasRoom
  split
  · exact Or.inl ⟨_, rfl, Or.inl rfl⟩
  · split
    next full => exact Or.inl ⟨_, rfl, Or.inr ⟨rfl, full⟩⟩
    next small room => exact Or.inr ⟨Nat.not_lt.mp small, Nat.not_le.mp room, rfl, rfl⟩

theorem after_queues (agent : Agent) (operation : Operation) : agent.Queues operation (agent.after operation).queue := by
  cases moves : operation.movesPackets with
  | false =>
    obtain ⟨table, same⟩ := agent.after_onTable moves
    rw [same]
    cases operation with
    | process | next | drain => cases moves
    | _ => exact .takes rfl rfl rfl
  | true =>
    cases operation with
    | process resolve salt sender relayId datagram now =>
      cases becomes : agent.parcel? (.process resolve salt sender relayId datagram now) with
      | none =>
        have offers := agent.process_parcel resolve salt sender relayId datagram now
        simp only [becomes] at offers
        rw [after, offers.queue]
        refine .takes rfl rfl ?_
        unfold sends
        rw [becomes]
        split <;> trivial
      | some packet =>
        obtain ⟨said, queue⟩ := parcel?_enqueued becomes
        rw [queue]
        obtain ⟨reason, refused, _⟩ | ⟨small, room, forwarded, queued⟩ := agent.enqueue_cases packet
        · rw [refused] at said ⊢
          refine .takes rfl rfl ?_
          simp only [sends, said]
        · rw [forwarded] at said
          rw [queued]
          refine .puts rfl ?_ small room
          simp only [sends, said, becomes]
    | next =>
      simp only [after, next?]
      split
      next empty =>
        have none : agent.handsOut .next = [] := by simp only [handsOut, next?, empty, Option.toList_none]
        exact .takes rfl none rfl
      next packet queue waits =>
        exact .takes (waits.trans List.singleton_append.symm) (by simp only [handsOut, next?, waits, Option.toList_some]) rfl
    | drain => exact .takes (List.append_nil _).symm rfl rfl
    | _ => cases moves

/-- What the queue answers, it answers to a datagram. -/
theorem parcel?_of_atQueue {outcome : RelayOutcome} (said : agent.outcome? operation = some outcome)
    (queues : outcome.atQueue = true) : ∃ packet, agent.parcel? operation = some packet ∧
      outcome = (agent.enqueue packet.socket packet.datagram).2 := by
  cases operation with
  | process resolve salt sender relayId datagram now =>
    have offers := agent.process_parcel resolve salt sender relayId datagram now
    have value : (agent.process resolve salt sender relayId datagram now).value = .ok outcome := by
      simp only [outcome?] at said
      generalize (agent.process resolve salt sender relayId datagram now).value = value at said
      cases value <;> cases said
      rfl
    cases becomes : agent.parcel? (.process resolve salt sender relayId datagram now) with
    | some packet =>
      simp only [becomes] at offers
      exact ⟨packet, rfl, Except.ok.inj (value.symm.trans offers.enqueued.1)⟩
    | none =>
      simp only [becomes] at offers
      rw [offers.outcome outcome value] at queues
      cases queues
  | _ => cases said

/-- Every packet that is forwarded becomes one datagram, for the socket that is reported. -/
theorem sends_sockets (agent : Agent) (operation : Operation) :
    (agent.sends operation).map Outbound.socket =
      match agent.outcome? operation with
      | some (.forwarded socket) => [socket]
      | _ => [] := by
  cases said : agent.outcome? operation with
  | none =>
    simp only [sends, said]
    rfl
  | some outcome =>
    cases outcome with
    | forwarded socket =>
      obtain ⟨packet, becomes, _⟩ := parcel?_of_atQueue said rfl
      simp only [sends, said, becomes]
      rfl
    | delivered | dropped =>
      simp only [sends, said]
      rfl

/-- How full a queue may be, and of what. -/
structure Waiting (agent : Agent) : Prop where
  few : agent.queue.length ≤ agent.config.queueCapacity.toNat
  small : ∀ packet ∈ agent.queue, packet.datagram.length ≤ Datagram.largest

theorem Waiting.after {agent : Agent} (waiting : agent.Waiting) (operation : Operation) : (agent.after operation).Waiting := by
  have queues := agent.after_queues operation
  have config := agent.after_config operation
  generalize agent.after operation = next at queues config
  obtain ⟨_, _, _, queue⟩ := next
  simp only at queues config
  cases queues with
  | takes before =>
    constructor
    · have shorter := waiting.few
      rw [before, List.length_append] at shorter
      simp only [config]
      omega
    · intro packet member
      apply waiting.small
      rw [before]
      exact List.mem_append_right _ member
  | puts _ _ small room =>
    constructor
    · simp only [config, List.length_append, List.length_singleton]
      exact room
    · intro packet member
      obtain old | new := List.mem_append.mp member
      · exact waiting.small packet old
      · cases List.mem_singleton.mp new
        exact small

theorem Waiting.run {agent : Agent} (waiting : agent.Waiting) (operations : List Operation) : (agent.run operations).Waiting := by
  induction operations generalizing agent with
  | nil => exact waiting
  | cons operation operations ih => exact ih (waiting.after operation)

theorem run_queue (agent : Agent) (operations : List Operation) :
    (agent.history operations).flatMap (fun step => step.1.handsOut step.2) ++ (agent.run operations).queue =
      agent.queue ++ (agent.history operations).flatMap fun step => step.1.sends step.2 := by
  -- What an operation hands out and what it sends are balanced by the queue between, so the sums telescope.
  induction operations generalizing agent with
  | nil => exact (List.append_nil _).symm
  | cons operation operations ih =>
    have moved : agent.handsOut operation ++ (agent.after operation).queue = agent.queue ++ agent.sends operation := by
      have queues := agent.after_queues operation
      generalize (agent.after operation).queue = queue at queues
      cases queues with
      | takes queue out unsent => rw [out, unsent, queue, List.append_nil]
      | puts out sent => rw [out, sent, List.nil_append]
    simp only [history, List.flatMap_cons, List.append_assoc]
    rw [← List.append_assoc agent.queue, ← moved, List.append_assoc]
    exact congrArg (agent.handsOut operation ++ ·) (ih (agent.after operation))

/-- What was handed out, and then what waits, is what packets became that were forwarded: one datagram for each, in their
order. The queue never has more than its places, and no datagram that is too large; it is full whenever it says so. -/
theorem queue_conserved (config : AgentConfig) (operations : List Operation) :
    let agent := (fresh config).run operations
    let past := (fresh config).history operations
    past.flatMap (fun step => step.1.handsOut step.2) ++ agent.queue = past.flatMap (fun step => step.1.sends step.2) ∧
    (∀ step ∈ past, (step.1.sends step.2).map Outbound.socket =
      match step.1.outcome? step.2 with
      | some (.forwarded socket) => [socket]
      | _ => []) ∧
    agent.queue.length ≤ config.queueCapacity.toNat ∧
    (∀ packet ∈ agent.queue, packet.datagram.length ≤ Datagram.largest) ∧
    ∀ operation, agent.outcome? operation = some (.dropped .queueFull) →
      agent.queue.length = config.queueCapacity.toNat := by
  intro agent past
  have waiting : agent.Waiting := Waiting.run ⟨Nat.zero_le _, fun _ member => absurd member List.not_mem_nil⟩ operations
  have limits : agent.config = config := run_config (fresh config) operations
  have few := waiting.few
  rw [limits] at few
  refine ⟨run_queue (fresh config) operations, fun step _ => step.1.sends_sockets step.2, few, waiting.small, ?_⟩
  intro operation full
  obtain ⟨packet, _, answer⟩ := parcel?_of_atQueue full rfl
  obtain ⟨reason, refused, large | ⟨_, many⟩⟩ | ⟨_, _, forwarded, _⟩ := agent.enqueue_cases packet
  · rw [refused, large] at answer
    cases answer
  · rw [limits] at many
    exact Nat.le_antisymm few many
  · rw [forwarded] at answer
    cases answer

/-- What the client of hop 1 sends to a stranger is offered to the queue. -/
theorem closedSend_enqueues {exchange : Exchange} (found : agent.table.find? 1 = some (exchange, .outward))
    (key : exchange.innerKey = (Circuit.numberedHop 1).key) (link : exchange.link = (Circuit.numberedHop 1).link)
    (number : UInt8) (outside : (Address.ofEndpoint (stranger number)).isRelay = false) (content : Bytes) (now : Micros)
    (fits : ¬ agent.Overflows content now) :
    ∃ packet : Outbound, packet.datagram.length = RelayIds.size + content.length ∧
      agent.outcome? (closedSend number content now) = some (agent.enqueue packet.socket packet.datagram).2 ∧
      (agent.after (closedSend number content now)).queue = (agent.enqueue packet.socket packet.datagram).1.queue := by
  have resolves : ∃ target, (agent.cache.lookup (fun address => some ⟨address.relayId, address.socket⟩)
      (Address.ofEndpoint (stranger number))).endpoint = some target := by
    unfold EndpointCache.lookup
    split <;> exact ⟨_, rfl⟩
  obtain ⟨target, known⟩ := resolves
  have offers := (process_exits found (by decide) (Eq.refl exchange.link.endpoint)
    (fun address => some ⟨address.relayId, address.socket⟩) 0 ⟨0, 1⟩ now 0 content outside known).2 fits
  rw [key, link] at offers
  obtain ⟨value, queue⟩ := offers.enqueued
  refine ⟨_, ?_, ?_, queue⟩
  · rw [List.length_append, RelayIds.length_bytes]
  · simp only [outcome?, closedSend, numberedSend, value, Except.toOption]

end Agent
end OnionCircuit
