import OnionCircuit.Proofs.SenderCheck

/-! What a packet turns out to be once it is accepted. Reading it takes the exchange and the bytes only; the agent
comes in when it has to look up where content leaves for, and when a datagram is queued. -/

namespace OnionCircuit

inductive Reading
  | unreadable (reason : DropReason)
  /-- For the relay itself. -/
  | arrived (content : Bytes)
  /-- For somebody outside. -/
  | leaving (address : Address) (content : Bytes)
  /-- For a neighbour, with a layer less or a layer more. -/
  | passing (packet : Outbound)

/-- A packet goes to a neighbour under a tag layer, unless it has no room for a salt. -/
def Reading.toward (key : TagKey) (source : RelayId) (next : Endpoint) (packet : Bytes) : Reading :=
  match Tag.wrap key ⟨source, next.relayId⟩ packet with
  | .ok datagram => .passing ⟨next.socket, datagram⟩
  | .error _ => .unreadable .malformed

namespace Exchange

/-- Takes off the two layers of a packet from the client. -/
def open? (exchange : Exchange) (datagram : Bytes) : Option Bytes :=
  match Tag.unwrap exchange.innerKey datagram with
  | .ok packet => (Onion.remove exchange.link.embryo packet).toOption
  | .error _ => none

def readOutward (exchange : Exchange) (datagram : Bytes) : Reading :=
  match exchange.open? datagram with
  | none => .unreadable .decryptionFailed
  | some packet =>
    if Header.isTerminal packet then
      match Header.parse? packet with
      | none => .unreadable .malformed
      | some header =>
        if header.address.isRelay then .arrived (packet.drop Header.size)
        else .leaving header.address (packet.drop Header.size)
    else
      match exchange.outer with
      | none => .unreadable .notEstablished
      | some next => .toward next.key exchange.outerId next.endpoint packet

/-- A packet with the two layers of an exchange leaves for the address under them. -/
theorem readOutward_pack (exchange : Exchange) (ids : RelayIds) (salt : UInt32) {address : Address}
    (outside : address.isRelay = false) (content : Bytes) :
    exchange.readOutward
      (Tag.wrapped exchange.innerKey ids (Onion.pack [exchange.link.embryo] salt address content)) =
      .leaving address content := by
  have opens : exchange.open?
      (Tag.wrapped exchange.innerKey ids (Onion.pack [exchange.link.embryo] salt address content)) =
        some (Onion.pack [] salt address content) := by
    rw [open?, Tag.unwrap_wrapped (Onion.salted_pack salt address content _)]
    simp only [Onion.pack_cons, Onion.remove_cover (Onion.size_le_pack salt address content []), Except.toOption]
  simp only [readOutward, opens, Onion.isTerminal_pack_nil, if_true, Onion.parse?_pack_nil, Header.terminal, outside,
    Bool.false_eq_true, if_false, Onion.drop_pack_nil]

def readRelayed (exchange : Exchange) (next : Binding) (datagram : Bytes) : Reading :=
  match Tag.unwrap next.key datagram with
  | .error _ => .unreadable .decryptionFailed
  | .ok packet =>
    match Onion.add exchange.link.embryo packet with
    | .error _ => .unreadable .malformed
    | .ok covered => .toward exchange.innerKey exchange.innerId exchange.link.endpoint covered

def readEntering (exchange : Exchange) (salt : UInt32) (sender : Address) (content : Bytes) : Reading :=
  .toward exchange.innerKey exchange.innerId exchange.link.endpoint
    (Onion.pack [exchange.link.embryo] salt sender content)

end Exchange

namespace Accepted

def reading (accepted : Accepted) (salt : UInt32) (datagram : Bytes) : Reading :=
  match accepted.passage with
  | .outward => accepted.exchange.readOutward datagram
  | .relayed next => accepted.exchange.readRelayed next datagram
  | .entering sender => accepted.exchange.readEntering salt sender (datagram.drop RelayIds.size)

/-- Only a packet that enters a circuit needs a salt. -/
def cost (accepted : Accepted) : List AgentEffect :=
  match accepted.passage with
  | .entering _ => [.salt]
  | _ => []

end Accepted

namespace Agent

/-- What an agent does with a packet that has been read. -/
def act (agent : Agent) (resolve : Resolver) (accepted : Accepted) (now : Micros) : Reading → Processed
  | .unreadable reason => ⟨agent, accepted.cost, .ok (.dropped reason)⟩
  | .arrived content => ⟨agent, accepted.cost, .ok (.delivered accepted.exchange.link.endpoint content)⟩
  | .leaving address content => agent.exit resolve accepted.exchange.outerId address content now
  | .passing packet =>
    ⟨(agent.enqueue packet.socket packet.datagram).1, accepted.cost, .ok (agent.enqueue packet.socket packet.datagram).2⟩

private theorem act_toward (agent : Agent) (resolve : Resolver) (accepted : Accepted) (now : Micros) (key : TagKey)
    (source : RelayId) (next : Endpoint) (packet : Bytes) :
    agent.act resolve accepted now (.toward key source next packet) =
      ⟨(agent.forward key source next packet).1, accepted.cost, .ok (agent.forward key source next packet).2⟩ := by
  unfold Reading.toward forward
  cases Tag.wrap key ⟨source, next.relayId⟩ packet <;> rfl

theorem pass_eq (agent : Agent) (resolve : Resolver) (salt : UInt32) (accepted : Accepted) (datagram : Bytes)
    (now : Micros) :
    agent.pass resolve salt accepted datagram now = agent.act resolve accepted now (accepted.reading salt datagram) := by
  obtain ⟨exchange, passage⟩ := accepted
  cases passage with
  | outward =>
    simp only [pass, passOutward, Accepted.reading, Exchange.readOutward, Exchange.open?]
    cases Tag.unwrap exchange.innerKey datagram with
    | error short => rfl
    | ok packet =>
      simp only
      cases Onion.remove exchange.link.embryo packet with
      | error short => rfl
      | ok inner =>
        simp only [Except.toOption]
        split
        · cases Header.parse? inner with
          | none => rfl
          | some header =>
            simp only
            split <;> rfl
        · cases exchange.outer with
          | none => rfl
          | some next => simp only [act_toward, Accepted.cost]
  | relayed next =>
    simp only [pass, passRelayed, Accepted.reading, Exchange.readRelayed]
    cases Tag.unwrap next.key datagram with
    | error short => rfl
    | ok packet =>
      simp only
      cases Onion.add exchange.link.embryo packet with
      | error short => rfl
      | ok covered => simp only [act_toward, Accepted.cost]
  | entering sender => simp only [pass, passEntering, Accepted.reading, Exchange.readEntering, act_toward, Accepted.cost]

/-- The packet as its exchange accepts it, if one does. -/
def accepted? (agent : Agent) (sender : Endpoint) (relayId : RelayId) (datagram : Bytes) (now : Micros) : Option Accepted :=
  if relayId = 0 ∨ datagram.length < RelayIds.size then none
  else
    match (agent.screen sender relayId (datagram.drop RelayIds.size) now).value with
    | .ok (.ok accepted) => some accepted
    | _ => none

/-- Who sends to an exchange that has no next hop. -/
def stranger? (agent : Agent) (sender : Endpoint) (relayId : RelayId) (datagram : Bytes) : Option Address :=
  if relayId = 0 ∨ datagram.length < RelayIds.size then none
  else
    match agent.table.find? relayId with
    | some (exchange, .inward) => if exchange.outer.isNone then some (Address.ofEndpoint sender) else none
    | _ => none

/-- Where content leaves for that a client sends through its exchange. -/
def exit? (agent : Agent) (sender : Endpoint) (relayId : RelayId) (datagram : Bytes) : Option (Address × Bytes) :=
  if relayId = 0 then none
  else
    match agent.table.find? relayId with
    | some (exchange, .outward) =>
      if sender = exchange.link.endpoint then
        match exchange.readOutward datagram with
        | .leaving address content => some (address, content)
        | _ => none
      else none
    | _ => none

private theorem toward_ne_leaving (key : TagKey) (source : RelayId) (next : Endpoint) (packet : Bytes) {address : Address}
    {content : Bytes} : Reading.toward key source next packet ≠ .leaving address content := by
  unfold Reading.toward
  split <;> exact nofun

theorem outward_of_leaving {accepted : Accepted} {salt : UInt32} {datagram : Bytes} {address : Address}
    {content : Bytes} (leaves : accepted.reading salt datagram = .leaving address content) :
    accepted.passage = .outward ∧ accepted.exchange.readOutward datagram = .leaving address content := by
  obtain ⟨exchange, passage⟩ := accepted
  cases passage with
  | outward => exact ⟨rfl, leaves⟩
  | relayed next =>
    simp only [Accepted.reading, Exchange.readRelayed] at leaves
    split at leaves
    · cases leaves
    · split at leaves
      · cases leaves
      · exact absurd leaves (toward_ne_leaving _ _ _ _)
  | entering sender =>
    simp only [Accepted.reading, Exchange.readEntering] at leaves
    exact absurd leaves (toward_ne_leaving _ _ _ _)

private theorem long_of_leaving {exchange : Exchange} {datagram : Bytes} {address : Address} {content : Bytes}
    (leaves : exchange.readOutward datagram = .leaving address content) : RelayIds.size ≤ datagram.length := by
  apply Nat.not_lt.mp
  intro short
  have refused : Tag.unwrap exchange.innerKey datagram = .error .tooShort := if_pos (by omega)
  rw [Exchange.readOutward, Exchange.open?, refused] at leaves
  cases leaves

section
variable {agent : Agent} {sender : Endpoint} {relayId : RelayId} {datagram : Bytes} {now : Micros}

private theorem screen_outward {exchange : Exchange} (found : agent.table.find? relayId = some (exchange, .outward))
    (sender : Endpoint) (content : Bytes) (now : Micros) : agent.screen sender relayId content now =
      if sender = exchange.link.endpoint then
        { agent.charge exchange now with value := .ok (.ok ⟨exchange, .outward⟩) }
      else ⟨agent, [], .ok (.error .invalidSender)⟩ := by
  simp only [screen, found]

/-- A packet from the client costs its exchange a point, and no more. -/
theorem process_table_outward {exchange : Exchange} (found : agent.table.find? relayId = some (exchange, .outward))
    (named : relayId ≠ 0) (long : RelayIds.size ≤ datagram.length) (resolve : Resolver) (salt : UInt32) (now : Micros) :
    (agent.process resolve salt exchange.link.endpoint relayId datagram now).agent.table =
      (agent.charge exchange now).agent.table := by
  unfold process
  rw [if_neg named, if_neg (Nat.not_lt.mpr long), screen_outward found, if_pos rfl]
  exact pass_table _ _ _ _ _ _

/-- What an exchange accepts as outward it has from its client. -/
private theorem screen_accepts_outward {accepted : Accepted} {content : Bytes}
    (accepts : (agent.screen sender relayId content now).value = .ok (.ok accepted)) (outward : accepted.passage = .outward) :
    agent.table.find? relayId = some (accepted.exchange, .outward) ∧ sender = accepted.exchange.link.endpoint := by
  have gate := agent.screen_gate sender relayId content now
  generalize agent.screen sender relayId content now = done at gate accepts
  cases gate with
  | client found own =>
    cases accepts
    exact ⟨found, own⟩
  | neighbour found bound includes inward =>
    cases accepts
    exact absurd outward inward
  | known | newcomer =>
    cases accepts
    cases outward
  | nobody | foreign | excluded | restricted | fault => cases accepts

theorem accepted?_eq_some {accepted : Accepted} : agent.accepted? sender relayId datagram now = some accepted ↔
    (relayId ≠ 0 ∧ RelayIds.size ≤ datagram.length) ∧
      (agent.screen sender relayId (datagram.drop RelayIds.size) now).value = .ok (.ok accepted) := by
  unfold accepted?
  split
  next refused =>
    rw [← Nat.not_lt, ne_eq, ← not_or]
    exact ⟨nofun, fun passes => absurd refused passes.1⟩
  next passes =>
    rw [← Nat.not_lt, ne_eq, ← not_or, and_iff_right passes]
    split
    next other same => rw [same, Option.some.injEq, Except.ok.injEq, Except.ok.injEq]
    next refuses => exact ⟨nofun, fun accepts => absurd accepts (refuses accepted)⟩

theorem exit?_eq_some (salt : UInt32) (now : Micros) {address : Address} {content : Bytes} :
    agent.exit? sender relayId datagram = some (address, content) ↔
      ∃ accepted, agent.accepted? sender relayId datagram now = some accepted ∧
        accepted.reading salt datagram = .leaving address content := by
  constructor
  · intro exits
    unfold exit? at exits
    split at exits
    next => cases exits
    next named =>
      split at exits
      next exchange found =>
        split at exits
        next client =>
          split at exits
          next leaves =>
            cases exits
            refine ⟨⟨exchange, .outward⟩, accepted?_eq_some.mpr ⟨⟨named, long_of_leaving leaves⟩, ?_⟩, leaves⟩
            rw [screen_outward found, if_pos client]
          next => cases exits
        next => cases exits
      next => cases exits
  · rintro ⟨accepted, accepts, leaves⟩
    obtain ⟨⟨named, _⟩, screened⟩ := accepted?_eq_some.mp accepts
    obtain ⟨outward, reads⟩ := outward_of_leaving leaves
    obtain ⟨found, client⟩ := screen_accepts_outward screened outward
    rw [exit?, if_neg named, found]
    simp only [client, if_true, reads]

end

/-- The endpoints after the gate, where a stranger is looked up whether it may pass or not. -/
def cacheAtGate (agent : Agent) (sender : Endpoint) (relayId : RelayId) (datagram : Bytes) (now : Micros) : EndpointCache :=
  match agent.stranger? sender relayId datagram with
  | some address => (agent.cache.isUnrestricted address now).1
  | none => agent.cache

/-- The agent once a packet is past the gate or refused there, but for its exchanges. -/
structure AtGate (agent : Agent) (sender : Endpoint) (relayId : RelayId) (datagram : Bytes) (now : Micros) (guarded : Agent) :
    Prop where
  config : guarded.config = agent.config
  queue : guarded.queue = agent.queue
  cache : guarded.cache = agent.cacheAtGate sender relayId datagram now

section
variable {agent : Agent} {sender : Endpoint} {relayId : RelayId} {datagram : Bytes} {now : Micros}

private theorem screen_atGate (agent : Agent) (named : relayId ≠ 0) (long : RelayIds.size ≤ datagram.length) (sender : Endpoint)
    (now : Micros) : agent.AtGate sender relayId datagram now
      (agent.screen sender relayId (datagram.drop RelayIds.size) now).agent := by
  have passes : ¬ (relayId = 0 ∨ datagram.length < RelayIds.size) := not_or.mpr ⟨named, Nat.not_lt.mpr long⟩
  have charged {guarded : Agent} (exchange : Exchange) (untouched : agent.AtGate sender relayId datagram now guarded) :
      agent.AtGate sender relayId datagram now (guarded.charge exchange now).agent :=
    ⟨(charge_config _ _ _).trans untouched.config, (charge_queue _ _ _).trans untouched.queue,
      (charge_cache _ _ _).trans untouched.cache⟩
  have known (nobody : agent.stranger? sender relayId datagram = none) : agent.AtGate sender relayId datagram now agent :=
    ⟨rfl, rfl, by rw [cacheAtGate, nobody]⟩
  have stranger {exchange : Exchange} (found : agent.table.find? relayId = some (exchange, .inward))
      (free : exchange.outer = none) :
      agent.AtGate sender relayId datagram now (agent.looked (Address.ofEndpoint sender) now) :=
    ⟨rfl, rfl, by simp only [cacheAtGate, stranger?, passes, if_false, found, free, Option.isNone_none, if_true, looked]⟩
  have gate := agent.screen_gate sender relayId (datagram.drop RelayIds.size) now
  generalize agent.screen sender relayId (datagram.drop RelayIds.size) now = done at gate
  cases gate with
  | nobody missing => exact known (by simp only [stranger?, passes, if_false, missing])
  | foreign found => exact known (by simp only [stranger?, passes, if_false, found])
  | client found => exact charged _ (known (by simp only [stranger?, passes, if_false, found]))
  | excluded found bound =>
    exact known (by simp only [stranger?, passes, if_false, found, bound, Option.isNone_some, Bool.false_eq_true])
  | neighbour found bound =>
    exact charged _ (known (by
      simp only [stranger?, passes, if_false, found, bound, Option.isNone_some, Bool.false_eq_true]))
  | known found free => exact charged _ (stranger found free)
  | newcomer found free => exact charged _ (stranger found free)
  | restricted found free => exact stranger found free
  | fault found free => exact stranger found free

/-- An accepted packet is read and acted on by an agent that has changed nothing but its exchanges and the order of its
endpoints. -/
theorem process_accepts {accepted : Accepted} (accepts : agent.accepted? sender relayId datagram now = some accepted)
    (resolve : Resolver) (salt : UInt32) :
    let done := agent.process resolve salt sender relayId datagram now
    ∃ guarded, agent.AtGate sender relayId datagram now guarded ∧
      done.agent = (guarded.act resolve accepted now (accepted.reading salt datagram)).agent ∧
      done.value = (guarded.act resolve accepted now (accepted.reading salt datagram)).value := by
  obtain ⟨⟨named, long⟩, screened⟩ := accepted?_eq_some.mp accepts
  refine ⟨_, agent.screen_atGate named long sender now, ?_⟩
  unfold process
  rw [if_neg named, if_neg (Nat.not_lt.mpr long)]
  simp only [screened, pass_eq]
  exact ⟨trivial, trivial⟩

/-- Why a packet did not get past the gate. -/
inductive Refusal (agent : Agent) (relayId : RelayId) (datagram : Bytes) (now : Micros) : Except Fault RelayOutcome → Prop
  | short (few : datagram.length < RelayIds.size) : Refusal agent relayId datagram now (.ok (.dropped .malformed))
  | gate {reason : DropReason} (early : reason.atGate = true) : Refusal agent relayId datagram now (.ok (.dropped reason))
  | fault {exchange : Exchange} {fault : Fault} (found : agent.table.find? relayId = some (exchange, .inward))
    (fails : exchange.admitUnknown? now = .error fault) : Refusal agent relayId datagram now (.error fault)

/-- A packet that is not accepted ends at the gate. -/
theorem process_turns_away (refuses : agent.accepted? sender relayId datagram now = none) (resolve : Resolver)
    (salt : UInt32) :
    let done := agent.process resolve salt sender relayId datagram now
    agent.AtGate sender relayId datagram now done.agent ∧ agent.Refusal relayId datagram now done.value := by
  by_cases named : relayId = 0
  · have unknown : agent.stranger? sender relayId datagram = none := if_pos (Or.inl named)
    simp only [process, named, if_true, refuse]
    exact ⟨⟨rfl, rfl, by rw [← named, cacheAtGate, unknown]⟩, .gate rfl⟩
  · by_cases short : datagram.length < RelayIds.size
    · have unknown : agent.stranger? sender relayId datagram = none := if_pos (Or.inr short)
      simp only [process, named, short, if_true, if_false, refuse]
      exact ⟨⟨rfl, rfl, by rw [cacheAtGate, unknown]⟩, .short short⟩
    · have guarded := agent.screen_atGate named (Nat.not_lt.mp short) sender now
      have refused (accepted : Accepted) :
          (agent.screen sender relayId (datagram.drop RelayIds.size) now).value ≠ .ok (.ok accepted) := by
        intro accepts
        rw [accepted?_eq_some.mpr ⟨⟨named, Nat.not_lt.mp short⟩, accepts⟩] at refuses
        cases refuses
      have gate := agent.screen_gate sender relayId (datagram.drop RelayIds.size) now
      simp only [process, named, short, if_false]
      generalize agent.screen sender relayId (datagram.drop RelayIds.size) now = screened at guarded refused gate
      cases gate with
      | client | neighbour | known | newcomer => exact absurd rfl (refused _)
      | nobody => exact ⟨guarded, .gate rfl⟩
      | foreign => exact ⟨guarded, .gate rfl⟩
      | excluded => exact ⟨guarded, .gate rfl⟩
      | restricted => exact ⟨guarded, .gate rfl⟩
      | fault found free unknown fails => exact ⟨guarded, .fault found fails⟩

end
end Agent
end OnionCircuit
