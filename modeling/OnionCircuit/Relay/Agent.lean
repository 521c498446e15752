import OnionCircuit.Relay.EndpointCache
import OnionCircuit.Relay.Table

/-! The relay agent of a node: its exchanges, the endpoints it knows, and the
datagrams that wait to be sent. Operations take the time and return the next
state; what they do outside the agent they return as effects. -/

namespace OnionCircuit

structure Outbound where
  socket : SocketAddress
  datagram : Bytes
deriving DecidableEq

structure Agent where
  config : AgentConfig
  table : ExchangeTable
  cache : EndpointCache
  /-- First in, first out. -/
  queue : List Outbound

/-- What an operation does outside the agent. -/
inductive AgentEffect
  /-- The link of an exchange that was removed is closed. -/
  | close (link : LinkRef)
  /-- The resolver is asked. -/
  | resolve (address : Address)
  /-- The random salt that was offered is used up. -/
  | salt
deriving DecidableEq

/-- The state after an operation, also one that stopped at a fault. -/
structure AgentStep (α : Type) where
  agent : Agent
  effects : List AgentEffect
  value : α

namespace Agent

def start (config : AgentConfig) : Except StartError Agent := do
  config.validate.mapError .config
  config.layOutQueue.mapError .queue
  return ⟨config, ExchangeTable.empty, EndpointCache.empty config.cacheCapacity.toNat, []⟩

def exchangeCount (agent : Agent) : Nat := agent.table.size

def contains (agent : Agent) (relayId : RelayId) : Bool := agent.table.contains relayId

def points? (agent : Agent) (relayId : RelayId) : Option Int64 := (agent.table.get? relayId).map Exchange.points

/-- A new exchange and its two ids, unless there are too many. Waits while the words do not
hold two fresh ids; a refusal takes none of them. -/
def addExchange? (agent : Agent) (link : Link) (block : AssignBlock) (now : Micros) (words : List UInt32) :
    Option (Agent × Except Verdict (RelayId × RelayId) × List UInt32) :=
  if agent.config.maxExchanges.toNat ≤ agent.exchangeCount then
    some (agent, .error .relayExchangeLimit, words)
  else do
    let (inner, outer, words) ← agent.table.freshIds? words
    let exchange := Exchange.start inner outer link block agent.config.toAgentLimits now
    return ({ agent with table := agent.table.insert exchange }, .ok (inner, outer), words)

/-- The first phase of building a hop. -/
def assign? (agent : Agent) (link : Link) (block : AssignBlock) (now : Micros) (words : List UInt32) :
    Option (Agent × AssignResponse × List UInt32) := do
  let (agent, result, words) ← agent.addExchange? link block now words
  match result with
  | .ok (inner, outer) =>
    return (agent, ⟨.success, inner, outer, agent.config.relayAddress, agent.config.relayRetention⟩, words)
  | .error verdict => return (agent, .rejected verdict, words)

/-- The exchange with an inner id that belongs to a connection. -/
def owned? (agent : Agent) (connectionId : UInt64) (innerId : RelayId) : Option Exchange :=
  match agent.table.find? innerId with
  | some (exchange, .outward) => if exchange.link.connectionId = connectionId then some exchange else none
  | _ => none

/-- A next hop has a relay id, a port and an address. -/
def isNextHop (endpoint : Endpoint) : Bool :=
  endpoint.relayId ≠ 0 && endpoint.socket.port ≠ 0 && !endpoint.socket.ip.isUnspecified

/-- The second phase: the owner of an exchange binds the next hop, or another one in its place. -/
def setup (agent : Agent) (connectionId : UInt64) (block : SetupBlock) (now : Micros) : Agent × Verdict :=
  if isNextHop block.endpoint then
    match agent.owned? connectionId block.innerId with
    | some exchange =>
      ({ agent with table := agent.table.replace ((exchange.bind block.endpoint block.key).touch now) }, .success)
    | none => (agent, .invalidEndpoint)
  else (agent, .invalidEndpoint)

/-- The owner of an exchange keeps it alive. -/
def ping (agent : Agent) (connectionId : UInt64) (innerId : RelayId) (now : Micros) : Agent × Option PingResponse :=
  match agent.owned? connectionId innerId with
  | some exchange =>
    ({ agent with table := agent.table.replace (exchange.touch now) },
     some ⟨exchange.points, exchange.outer.map Binding.endpoint, exchange.retention⟩)
  | none => (agent, none)

/-- Credits an exchange; nothing is added for an unknown id. -/
def addPoints (agent : Agent) (relayId : RelayId) (points : Int64) : Except Fault (Agent × Int64) :=
  match agent.table.get? relayId with
  | some exchange => do
    let (exchange, credited) ← exchange.credit points agent.config.maxPoints
    return ({ agent with table := agent.table.replace exchange }, credited)
  | none => .ok (agent, 0)

def drop (agent : Agent) (exchange : Exchange) : AgentStep Unit :=
  ⟨{ agent with table := agent.table.erase exchange }, [.close exchange.link.ref], ()⟩

/-- Takes a point from an exchange. Without one left it is dropped instead. -/
def charge (agent : Agent) (exchange : Exchange) (now : Micros) : AgentStep Bool :=
  match exchange.spend? now with
  | some paid => ⟨{ agent with table := agent.table.replace paid }, [], true⟩
  | none => { agent.drop exchange with value := false }

/-- Charges the exchange that owns an id; false also for an unknown id. -/
def decrement (agent : Agent) (relayId : RelayId) (now : Micros) : AgentStep Bool :=
  match agent.table.get? relayId with
  | some exchange => agent.charge exchange now
  | none => ⟨agent, [], false⟩

def remove (agent : Agent) (relayId : RelayId) : AgentStep Bool :=
  match agent.table.get? relayId with
  | some exchange => { agent.drop exchange with value := true }
  | none => ⟨agent, [], false⟩

/-- Drops every expired exchange and says how many there were. A fault leaves all of them. -/
def clean (agent : Agent) (isClosed : LinkRef → Bool) (now : Micros) : Except Fault (AgentStep Nat) := do
  let expired ← agent.table.expired isClosed now
  return ⟨{ agent with table := expired.foldl ExchangeTable.erase agent.table },
    expired.map fun exchange => .close exchange.link.ref, expired.length⟩

def next? (agent : Agent) : Agent × Option Outbound :=
  match agent.queue with
  | [] => (agent, none)
  | packet :: queue => ({ agent with queue := queue }, some packet)

/-- Hands out everything that waits, in order. -/
def drain (agent : Agent) : Agent × List Outbound := ({ agent with queue := [] }, agent.queue)

end Agent
end OnionCircuit
