import OnionCircuit.Layer.Onion
import OnionCircuit.Relay.Agent

/-! How an agent handles a datagram. It finds the exchange, checks the sender, may
refuse the unknown, and charges one point; only then it looks inside. A packet
away from the client loses a layer, a packet towards it gains one. -/

namespace OnionCircuit

inductive DropReason
  /-- Relay id zero. -/
  | notRelayed
  | unknownRelayId
  | invalidSender
  | decryptionFailed
  | unresolvable
  /-- Unknown traffic that nothing lets in. -/
  | restricted
  /-- More layers, but no next hop. -/
  | notEstablished
  | queueFull
  | tooLarge
  | malformed
deriving DecidableEq

def DropReason.name : DropReason → String
  | .notRelayed => "NotRelayed"
  | .unknownRelayId => "UnknownRelayId"
  | .invalidSender => "InvalidSender"
  | .decryptionFailed => "DecryptionFailed"
  | .unresolvable => "Unresolvable"
  | .restricted => "Restricted"
  | .notEstablished => "NotEstablished"
  | .queueFull => "QueueFull"
  | .tooLarge => "TooLarge"
  | .malformed => "Malformed"

inductive RelayOutcome
  | forwarded (socket : SocketAddress)
  /-- For this node itself; `origin` is the client. -/
  | delivered (origin : Endpoint) (content : Bytes)
  | dropped (reason : DropReason)
deriving DecidableEq

def RelayOutcome.isDropped : RelayOutcome → Bool
  | .dropped _ => true
  | _ => false

/-- What remains to be done once an exchange has accepted a datagram. -/
inductive Passage
  | outward
  /-- From the next hop, which has encrypted it for us. -/
  | relayed (next : Binding)
  /-- From outside, or from the next hop speaking for itself. -/
  | entering (sender : Address)
deriving DecidableEq

/-- An accepted datagram with the exchange as it was before it paid. -/
structure Accepted where
  exchange : Exchange
  passage : Passage
deriving DecidableEq

abbrev Processed := AgentStep (Except Fault RelayOutcome)

namespace Agent

def refuse (agent : Agent) (reason : DropReason) : Processed := ⟨agent, [], .ok (.dropped reason)⟩

/-- Who may pass from outside: senders that a connection packet went to, packets of the open kind
where the exchange allows them, and now and then anyone where it allows that. -/
def letIn (agent : Agent) (exchange : Exchange) (sender : Address) (content : Bytes) (now : Micros) :
    Agent × Except Fault (Option Exchange) :=
  let (cache, known) := agent.cache.isUnrestricted sender now
  let agent := { agent with cache := cache }
  if known || (exchange.allowOpenSesami && ContentKind.ofContent? content == some .openSesami) then
    (agent, .ok (some exchange))
  else (agent, exchange.admitUnknown? now)

/-- Whether an exchange accepts a datagram from a sender, and what to do with it then. -/
def screen (agent : Agent) (sender : Endpoint) (relayId : RelayId) (content : Bytes) (now : Micros) :
    AgentStep (Except Fault (Except DropReason Accepted)) :=
  match agent.table.find? relayId with
  | none => ⟨agent, [], .ok (.error .unknownRelayId)⟩
  | some (exchange, direction) =>
    let accept (agent : Agent) (exchange : Exchange) (passage : Passage) :
        AgentStep (Except Fault (Except DropReason Accepted)) :=
      { agent.charge exchange now with value := .ok (.ok ⟨exchange, passage⟩) }
    let invalid : AgentStep (Except Fault (Except DropReason Accepted)) := ⟨agent, [], .ok (.error .invalidSender)⟩
    match direction, exchange.outer with
    | .outward, _ => if sender = exchange.link.endpoint then accept agent exchange .outward else invalid
    | .inward, some next =>
      if sender.socket ≠ next.endpoint.socket then invalid
      else if sender.relayId = next.endpoint.relayId then accept agent exchange (.relayed next)
      else if sender.relayId = 0 then accept agent exchange (.entering (Address.ofEndpoint sender))
      else invalid
    | .inward, none =>
      match agent.letIn exchange (Address.ofEndpoint sender) content now with
      | (agent, .error fault) => ⟨agent, [], .error fault⟩
      | (agent, .ok none) => ⟨agent, [], .ok (.error .restricted)⟩
      | (agent, .ok (some exchange)) => accept agent exchange (.entering (Address.ofEndpoint sender))

/-- Queues a datagram that is not too large, if there is room. -/
def enqueue (agent : Agent) (socket : SocketAddress) (datagram : Bytes) : Agent × RelayOutcome :=
  if Datagram.largest < datagram.length then (agent, .dropped .tooLarge)
  else if agent.config.queueCapacity.toNat ≤ agent.queue.length then (agent, .dropped .queueFull)
  else ({ agent with queue := agent.queue ++ [⟨socket, datagram⟩] }, .forwarded socket)

/-- Queues a packet under a tag layer. -/
def forward (agent : Agent) (key : TagKey) (source : RelayId) (next : Endpoint) (packet : Bytes) : Agent × RelayOutcome :=
  match Tag.wrap key ⟨source, next.relayId⟩ packet with
  | .ok datagram => agent.enqueue next.socket datagram
  | .error _ => (agent, .dropped .malformed)

/-- Sends content to its destination outside; a connection packet lets the destination answer. -/
def exit (agent : Agent) (resolve : Resolver) (source : RelayId) (address : Address) (content : Bytes) (now : Micros) :
    Processed :=
  let found := agent.cache.lookup resolve address
  let effects := if found.asked then [AgentEffect.resolve address] else []
  let agent := { agent with cache := found.cache }
  match found.endpoint with
  | none => { agent.refuse .unresolvable with effects := effects }
  | some endpoint =>
    let send (agent : Agent) : Processed :=
      let (agent, outcome) := agent.enqueue endpoint.socket ((RelayIds.mk source endpoint.relayId).bytes ++ content)
      ⟨agent, effects, .ok outcome⟩
    if ContentKind.ofContent? content = some .connect then
      match Checked.add now agent.config.endpointRetention with
      | .ok deadline => send { agent with cache := (agent.cache.unrestrict address deadline).1 }
      | .error fault => ⟨agent, effects, .error fault⟩
    else send agent

def passOutward (agent : Agent) (resolve : Resolver) (exchange : Exchange) (datagram : Bytes) (now : Micros) : Processed :=
  match Tag.unwrap exchange.innerKey datagram with
  | .error _ => agent.refuse .decryptionFailed
  | .ok packet =>
    match Onion.remove exchange.link.embryo packet with
    | .error _ => agent.refuse .decryptionFailed
    | .ok inner =>
      if Header.isTerminal inner then
        match Header.parse? inner with
        | none => agent.refuse .malformed
        | some header =>
          let content := inner.drop Header.size
          if header.address.isRelay then ⟨agent, [], .ok (.delivered exchange.link.endpoint content)⟩
          else agent.exit resolve exchange.outerId header.address content now
      else
        match exchange.outer with
        | none => agent.refuse .notEstablished
        | some next =>
          let (agent, outcome) := agent.forward next.key exchange.outerId next.endpoint inner
          ⟨agent, [], .ok outcome⟩

def passRelayed (agent : Agent) (exchange : Exchange) (next : Binding) (datagram : Bytes) : Processed :=
  match Tag.unwrap next.key datagram with
  | .error _ => agent.refuse .decryptionFailed
  | .ok packet =>
    match Onion.add exchange.link.embryo packet with
    | .error _ => agent.refuse .malformed
    | .ok covered =>
      let (agent, outcome) := agent.forward exchange.innerKey exchange.innerId exchange.link.endpoint covered
      ⟨agent, [], .ok outcome⟩

def passEntering (agent : Agent) (salt : UInt32) (exchange : Exchange) (sender : Address) (content : Bytes) : Processed :=
  let packet := Onion.pack [exchange.link.embryo] salt sender content
  let (agent, outcome) := agent.forward exchange.innerKey exchange.innerId exchange.link.endpoint packet
  ⟨agent, [.salt], .ok outcome⟩

def pass (agent : Agent) (resolve : Resolver) (salt : UInt32) (accepted : Accepted) (datagram : Bytes) (now : Micros) :
    Processed :=
  match accepted.passage with
  | .outward => agent.passOutward resolve accepted.exchange datagram now
  | .relayed next => agent.passRelayed accepted.exchange next datagram
  | .entering sender => agent.passEntering salt accepted.exchange sender (datagram.drop RelayIds.size)

/-- Handles a datagram, relay ids included, for a relay id of this node. An exchange that this
datagram exhausts is removed, but the datagram still goes its way. -/
def process (agent : Agent) (resolve : Resolver) (salt : UInt32) (sender : Endpoint) (relayId : RelayId)
    (datagram : Bytes) (now : Micros) : Processed :=
  if relayId = 0 then agent.refuse .notRelayed
  else if datagram.length < RelayIds.size then agent.refuse .malformed
  else
    let screened := agent.screen sender relayId (datagram.drop RelayIds.size) now
    match screened.value with
    | .error fault => ⟨screened.agent, screened.effects, .error fault⟩
    | .ok (.error reason) => ⟨screened.agent, screened.effects, .ok (.dropped reason)⟩
    | .ok (.ok accepted) =>
      let passed := screened.agent.pass resolve salt accepted datagram now
      { passed with effects := screened.effects ++ passed.effects }

end Agent
end OnionCircuit
