import OnionCircuit.Proofs.OnionLayers
import OnionCircuit.Proofs.TagLayer
import OnionCircuit.Relay.Forward

/-! What becomes of a datagram at one relay, once it has passed the sender check. Charging
the exchange never changes what happens to the datagram that pays. -/

namespace OnionCircuit.Agent
open Cipher (tagSize)

@[simp] theorem charge_config (agent : Agent) (exchange : Exchange) (now : Micros) :
    (agent.charge exchange now).agent.config = agent.config := by
  unfold charge
  split <;> rfl

@[simp] theorem charge_cache (agent : Agent) (exchange : Exchange) (now : Micros) :
    (agent.charge exchange now).agent.cache = agent.cache := by
  unfold charge
  split <;> rfl

@[simp] theorem charge_queue (agent : Agent) (exchange : Exchange) (now : Micros) :
    (agent.charge exchange now).agent.queue = agent.queue := by
  unfold charge
  split <;> rfl

@[simp] theorem letIn_config (agent : Agent) (exchange : Exchange) (sender : Address) (content : Bytes) (now : Micros) :
    (agent.letIn exchange sender content now).1.config = agent.config := by
  unfold letIn
  simp only
  split <;> rfl

@[simp] theorem letIn_queue (agent : Agent) (exchange : Exchange) (sender : Address) (content : Bytes) (now : Micros) :
    (agent.letIn exchange sender content now).1.queue = agent.queue := by
  unfold letIn
  simp only
  split <;> rfl

theorem admitUnknown?_exchange {exchange admitted : Exchange} {now : Micros}
    (admits : exchange.admitUnknown? now = .ok (some admitted)) :
    admitted = { exchange with lastAdmitted := now } := by
  unfold Exchange.admitUnknown? at admits
  split at admits
  next =>
    cases passed : Checked.sub now exchange.lastAdmitted with
    | error fault => simp [passed, bind, Except.bind] at admits
    | ok time =>
      simp only [passed, bind, Except.bind, pure, Except.pure] at admits
      split at admits
      next => cases admits
      next => cases admits; rfl
  next => cases admits

/-- Admission changes at most when the exchange last admitted an unknown packet. -/
theorem letIn_exchange {agent : Agent} {exchange admitted : Exchange} {sender : Address} {content : Bytes} {now : Micros}
    (admits : (agent.letIn exchange sender content now).2 = .ok (some admitted)) :
    admitted = exchange ∨ admitted = { exchange with lastAdmitted := now } := by
  unfold letIn at admits
  simp only at admits
  split at admits
  next => cases admits; exact Or.inl rfl
  next => exact Or.inr (admitUnknown?_exchange admits)

theorem letIn_unknown {agent : Agent} (exchange : Exchange) {sender : Address} {content : Bytes} {now : Micros}
    (closed : (agent.cache.isUnrestricted sender now).2 = false) (kind : ContentKind.ofContent? content ≠ some .openSesami) :
    (agent.letIn exchange sender content now).2 = exchange.admitUnknown? now := by
  have other : (ContentKind.ofContent? content == some .openSesami) = false := beq_eq_false_iff_ne.mpr kind
  unfold letIn
  simp only [closed, other, Bool.and_false, Bool.or_false, Bool.false_eq_true, if_false]

theorem admitUnknown?_eq {exchange : Exchange} {now passed : Micros} (allows : exchange.allowUnknown = true)
    (since : Checked.sub now exchange.lastAdmitted = .ok passed) (late : ¬ passed < exchange.restrictedInterval) :
    exchange.admitUnknown? now = .ok (some { exchange with lastAdmitted := now }) := by
  simp only [Exchange.admitUnknown?, allows, if_true, since, bind, Except.bind, late, if_false]
  rfl

/-- A relay tries to queue one datagram, after it has changed neither its limits nor its queue. -/
def Offers (agent : Agent) (done : Processed) (packet : Outbound) : Prop :=
  ∃ charged : Agent, charged.config = agent.config ∧ charged.queue = agent.queue ∧
    done.agent = (charged.enqueue packet.socket packet.datagram).1 ∧
    done.value = .ok (charged.enqueue packet.socket packet.datagram).2

def HasRoom (agent : Agent) : Prop := agent.queue.length < agent.config.queueCapacity.toNat

theorem Offers.sends {agent : Agent} {done : Processed} {packet : Outbound} (offers : agent.Offers done packet)
    (small : packet.datagram.length ≤ Datagram.largest) (room : agent.HasRoom) :
    done.value = .ok (.forwarded packet.socket) ∧ done.agent.queue = agent.queue ++ [packet] := by
  obtain ⟨charged, config, queue, after, value⟩ := offers
  have free : ¬ charged.config.queueCapacity.toNat ≤ charged.queue.length := by
    unfold HasRoom at room
    rw [config, queue]
    omega
  have fits : ¬ Datagram.largest < packet.datagram.length := by omega
  simp only [enqueue, fits, free, if_false] at after value
  refine ⟨value, ?_⟩
  rw [after, queue]

theorem Offers.tooLarge {agent : Agent} {done : Processed} {packet : Outbound} (offers : agent.Offers done packet)
    (large : Datagram.largest < packet.datagram.length) :
    done.value = .ok (.dropped .tooLarge) ∧ done.agent.queue = agent.queue := by
  obtain ⟨charged, _, queue, after, value⟩ := offers
  simp only [enqueue, large, if_true] at after value
  exact ⟨value, by rw [after, queue]⟩

private theorem forward_eq (agent : Agent) (key : TagKey) (source : RelayId) (next : Endpoint) {packet : Bytes}
    (enough : Header.size ≤ packet.length) :
    agent.forward key source next packet = agent.enqueue next.socket (Tag.wrapped key ⟨source, next.relayId⟩ packet) := by
  have salted : Header.saltSize ≤ packet.length := Nat.le_trans Header.saltSize_le_size enough
  rw [forward, Tag.wrap_eq_wrapped salted]

private theorem process_accepted {agent charged : Agent} {effects : List AgentEffect} {accepted : Accepted}
    {sender : Endpoint} {relayId : RelayId} {datagram : Bytes} {now : Micros}
    (named : relayId ≠ 0) (long : RelayIds.size ≤ datagram.length)
    (passes : agent.screen sender relayId (datagram.drop RelayIds.size) now = ⟨charged, effects, .ok (.ok accepted)⟩)
    (resolve : Resolver) (salt : UInt32) :
    let passed := charged.pass resolve salt accepted datagram now
    agent.process resolve salt sender relayId datagram now = { passed with effects := effects ++ passed.effects } := by
  have enough : ¬ datagram.length < RelayIds.size := by omega
  simp only [process, named, enough, if_false, passes]

section Outward
variable {agent : Agent} {sender : Endpoint} {relayId : RelayId} {exchange : Exchange}
  (found : agent.table.find? relayId = some (exchange, .outward)) (named : relayId ≠ 0)
  (owned : sender = exchange.link.endpoint) (resolve : Resolver) (salt : UInt32) (ids : RelayIds) (now : Micros)

include found named owned

/-- What the owner of an inner id does with a datagram from its client. -/
private theorem process_outward {datagram : Bytes} (long : RelayIds.size ≤ datagram.length) :
    let charged := agent.charge exchange now
    let passed := charged.agent.passOutward resolve exchange datagram now
    agent.process resolve salt sender relayId datagram now =
      { passed with effects := charged.effects ++ passed.effects } := by
  have screened : agent.screen sender relayId (datagram.drop RelayIds.size) now =
      { agent.charge exchange now with value := .ok (.ok ⟨exchange, .outward⟩) } := by
    simp only [screen, found, owned, if_true]
  exact process_accepted named long screened resolve salt

omit found named owned in
private theorem unwrap_cover {packet : Bytes} (enough : Header.size ≤ packet.length) :
    Tag.unwrap exchange.innerKey (Tag.wrapped exchange.innerKey ids (Onion.cover exchange.link.embryo packet)) =
      .ok (Onion.cover exchange.link.embryo packet) := by
  apply Tag.unwrap_wrapped
  have salted := Header.saltSize_le_size
  rw [Onion.length_cover]
  omega

theorem process_onward {next : Binding} {packet : Bytes} (bound : exchange.outer = some next)
    (enough : Header.size ≤ packet.length) (deeper : Header.isTerminal packet = false) :
    agent.Offers
      (agent.process resolve salt sender relayId
        (Tag.wrapped exchange.innerKey ids (Onion.cover exchange.link.embryo packet)) now)
      ⟨next.endpoint.socket, Tag.wrapped next.key ⟨exchange.outerId, next.endpoint.relayId⟩ packet⟩ := by
  rw [process_outward found named owned resolve salt now (Tag.size_le_wrapped _ ids _)]
  simp only [passOutward, unwrap_cover ids enough, Onion.remove_cover enough, deeper, Bool.false_eq_true, if_false, bound,
    forward_eq _ _ _ _ enough]
  exact ⟨_, charge_config agent exchange now, charge_queue agent exchange now, rfl, rfl⟩

section Last
variable (mark : UInt32) {address : Address} (content : Bytes)

omit found named owned in
private theorem passOutward_last (charged : Agent) :
    charged.passOutward resolve exchange
      (Tag.wrapped exchange.innerKey ids (Onion.pack [exchange.link.embryo] mark address content)) now =
    if address.isRelay then ⟨charged, [], .ok (.delivered exchange.link.endpoint content)⟩
    else charged.exit resolve exchange.outerId address content now := by
  have enough := Onion.size_le_pack mark address content []
  simp only [passOutward, Onion.pack_cons, unwrap_cover ids enough, Onion.remove_cover enough, Onion.isTerminal_pack_nil,
    if_true, Onion.parse?_pack_nil, Onion.drop_pack_nil, Header.terminal]

theorem process_delivers (here : address.isRelay = true) :
    let done := agent.process resolve salt sender relayId
      (Tag.wrapped exchange.innerKey ids (Onion.pack [exchange.link.embryo] mark address content)) now
    done.value = .ok (.delivered exchange.link.endpoint content) ∧ done.agent.queue = agent.queue := by
  rw [process_outward found named owned resolve salt now (Tag.size_le_wrapped _ ids _), passOutward_last]
  simp only [here, if_true]
  exact ⟨trivial, charge_queue agent exchange now⟩

omit found named owned in
/-- A connection packet asks its exit for a deadline that no clock can show. -/
def Overflows (agent : Agent) (content : Bytes) (now : Micros) : Prop :=
  ContentKind.ofContent? content = some .connect ∧ ¬ Checked.InRange (now.toInt + agent.config.endpointRetention.toInt)

/-- The last hop sends what is for somebody else, unless it has to note until when the answer may come and has
no number for that time. -/
theorem process_exits {target : Endpoint} (away : address.isRelay = false)
    (known : (agent.cache.lookup resolve address).endpoint = some target) :
    let done := agent.process resolve salt sender relayId
      (Tag.wrapped exchange.innerKey ids (Onion.pack [exchange.link.embryo] mark address content)) now
    (agent.Overflows content now → done.value = .error .addition) ∧
    (¬ agent.Overflows content now →
      agent.Offers done ⟨target.socket, (RelayIds.mk exchange.outerId target.relayId).bytes ++ content⟩) := by
  rw [process_outward found named owned resolve salt now (Tag.size_le_wrapped _ ids _), passOutward_last]
  simp only [away, Bool.false_eq_true, if_false, exit, charge_cache, known, charge_config]
  by_cases connects : ContentKind.ofContent? content = some .connect
  · by_cases range : Checked.InRange (now.toInt + agent.config.endpointRetention.toInt)
    · simp only [connects, if_true, Checked.add, range]
      refine ⟨fun overflows => absurd range overflows.2, fun _ => ⟨_, ?_, ?_, rfl, rfl⟩⟩
      · rfl
      · exact charge_queue agent exchange now
    · simp only [connects, if_true, Checked.add, range, if_false]
      exact ⟨fun _ => trivial, fun fits => absurd ⟨connects, range⟩ fits⟩
  · simp only [connects, if_false]
    refine ⟨fun overflows => absurd overflows.1 connects, fun _ => ⟨_, ?_, ?_, rfl, rfl⟩⟩
    · rfl
    · exact charge_queue agent exchange now

end Last
end Outward

section Inward
variable {agent : Agent} {sender : Endpoint} {relayId : RelayId} {exchange : Exchange}
  (found : agent.table.find? relayId = some (exchange, .inward)) (named : relayId ≠ 0)
  (resolve : Resolver) (salt : UInt32) (ids : RelayIds) (now : Micros)

include found named

/-- A packet from the next hop gets one more layer and goes on to the client. -/
theorem process_inward {next : Binding} {packet : Bytes} (bound : exchange.outer = some next)
    (sent : sender = next.endpoint) (enough : Header.size ≤ packet.length) :
    agent.Offers (agent.process resolve salt sender relayId (Tag.wrapped next.key ids packet) now)
      ⟨exchange.link.endpoint.socket, Tag.wrapped exchange.innerKey ⟨exchange.innerId, exchange.link.endpoint.relayId⟩
        (Onion.cover exchange.link.embryo packet)⟩ := by
  have screened : agent.screen sender relayId ((Tag.wrapped next.key ids packet).drop RelayIds.size) now =
      { agent.charge exchange now with value := .ok (.ok ⟨exchange, .relayed next⟩) } := by
    simp only [screen, found, bound, sent, ne_eq, not_true_eq_false, if_false, if_true]
  have salted : Header.saltSize ≤ packet.length := Nat.le_trans Header.saltSize_le_size enough
  have covered : Header.size ≤ (Onion.cover exchange.link.embryo packet).length := by
    rw [Onion.length_cover]
    omega
  rw [process_accepted named (Tag.size_le_wrapped _ ids _) screened resolve salt]
  simp only [pass, passRelayed, Tag.unwrap_wrapped salted, Onion.add_eq enough, forward_eq _ _ _ _ covered]
  exact ⟨_, charge_config agent exchange now, charge_queue agent exchange now, rfl, rfl⟩

/-- What the outermost hop admits from outside gets a header with its sender and the first layer. -/
theorem process_entering {admitted : Exchange} {content : Bytes} (free : exchange.outer = none)
    (admits : (agent.letIn exchange (Address.ofEndpoint sender) content now).2 = .ok (some admitted)) :
    agent.Offers (agent.process resolve salt sender relayId (ids.bytes ++ content) now)
      ⟨exchange.link.endpoint.socket, Tag.wrapped exchange.innerKey ⟨exchange.innerId, exchange.link.endpoint.relayId⟩
        (Onion.pack [exchange.link.embryo] salt (Address.ofEndpoint sender) content)⟩ := by
  have rest : (ids.bytes ++ content).drop RelayIds.size = content := by
    rw [List.drop_append_of_le_length (by simp), List.drop_of_length_le (by simp), List.nil_append]
  have long : RelayIds.size ≤ (ids.bytes ++ content).length := by
    rw [List.length_append, RelayIds.length_bytes]
    omega
  have unchanged : admitted.innerKey = exchange.innerKey ∧ admitted.innerId = exchange.innerId ∧
      admitted.link = exchange.link := by
    obtain rfl | rfl := letIn_exchange admits
    · exact ⟨rfl, rfl, rfl⟩
    · exact ⟨rfl, rfl, rfl⟩
  obtain ⟨key, inner, link⟩ := unchanged
  have config := letIn_config agent exchange (Address.ofEndpoint sender) content now
  have queue := letIn_queue agent exchange (Address.ofEndpoint sender) content now
  cases same : agent.letIn exchange (Address.ofEndpoint sender) content now with
  | mk guarded answer =>
    simp only [same] at admits config queue
    subst admits
    have screened : agent.screen sender relayId ((ids.bytes ++ content).drop RelayIds.size) now =
        { guarded.charge admitted now with value := .ok (.ok ⟨admitted, .entering (Address.ofEndpoint sender)⟩) } := by
      simp only [screen, found, free, rest, same]
    rw [process_accepted named long screened resolve salt]
    simp only [pass, passEntering, rest, key, inner, link, forward_eq _ _ _ _ (Onion.size_le_pack _ _ _ _)]
    refine ⟨_, ?_, ?_, rfl, rfl⟩
    · rw [charge_config, config]
    · rw [charge_queue, queue]

end Inward
end OnionCircuit.Agent
