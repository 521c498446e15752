import OnionCircuit.Rehearsal.Script
import OnionCircuit.Rehearsal.Supply
import OnionCircuit.Relay.Forward
import OnionCircuit.Upkeep.Signal

/-! The world of a rehearsal: agents, circuits, and the links between them, with a clock
that is set by hand and a time that passes only when everybody waits. -/

namespace OnionCircuit.Rehearsal

/-- Answers for the addresses in the table; all others lead where they say, or nowhere. -/
structure Directory where
  table : List (Address × Option Endpoint) := []
  fails : Bool := false

def Directory.resolve (directory : Directory) : Resolver := fun address =>
  match directory.table.lookup address with
  | some entry => entry
  | none => if directory.fails then none else some ⟨address.relayId, address.socket⟩

structure Station where
  name : String
  agent : Agent
  directory : Directory
  /-- How often the directory was asked. -/
  asked : Nat
  /-- Where datagrams for this station arrive. -/
  socket : Option SocketAddress

/-- Both ends of a link. -/
structure Wire where
  name : String
  link : Link
  isClosed : Bool
  /-- The station at the far end; without one the far end agrees to everything. -/
  station : Option Nat
  setups : List SetupBlock
  pings : Nat
  setupScenes : List (Scene Verdict)
  pingScenes : List (Scene PingResponse)

structure Route where
  name : String
  circuit : Circuit
  /-- For which kinds all routed traffic was closed. -/
  relayedClosed : List CircuitKind

structure World where
  clock : Micros := 1000000
  /-- Milliseconds. -/
  time : Nat := 0
  supply : Supply := {}
  /-- The signal of the call or loop that is under way. -/
  cancel : Signal := {}
  stations : List Station := []
  wires : List Wire := []
  routes : List Route := []
  /-- Which links were closed, and when, in this order. -/
  closures : List (LinkRef × Nat) := []

/-- The place of the last one with a name. -/
def lastNamed? (names : List String) (name : String) : Option Nat :=
  (names.reverse.findIdx? (· = name)).map fun index => names.length - 1 - index

namespace World

def station? (world : World) (name : String) : Option Nat := lastNamed? (world.stations.map Station.name) name

def wire? (world : World) (name : String) : Option LinkRef := lastNamed? (world.wires.map Wire.name) name

def route? (world : World) (name : String) : Option Nat := lastNamed? (world.routes.map Route.name) name

def addStation (world : World) (station : Station) : World := { world with stations := world.stations ++ [station] }

def addRoute (world : World) (name : String) (circuit : Circuit) : World :=
  { world with routes := world.routes ++ [⟨name, circuit, []⟩] }

def addWire (world : World) (name : String) (connectionId : UInt64) (endpoint : Endpoint) (address : Address)
    (embryo : Embryo) (station : Option Nat) : World :=
  let link : Link := ⟨world.wires.length, connectionId, endpoint, address, embryo⟩
  { world with wires := world.wires ++ [⟨name, link, false, station, [], 0, [], []⟩] }

def changeStation (world : World) (station : Nat) (change : Station → Station) : World :=
  { world with stations := world.stations.modify station change }

def changeWire (world : World) (link : LinkRef) (change : Wire → Wire) : World :=
  { world with wires := world.wires.modify link change }

def changeRoute (world : World) (route : Nat) (change : Route → Route) : World :=
  { world with routes := world.routes.modify route change }

def isClosed (world : World) (link : LinkRef) : Bool := (world.wires[link]?.map Wire.isClosed).getD true

/-- Only the first close of a link is on record. -/
def closeLink (world : World) (link : LinkRef) : World :=
  if world.isClosed link then world
  else { world.changeWire link ({ · with isClosed := true }) with closures := world.closures ++ [(link, world.time)] }

/-- Nobody can raise a signal that was let go. -/
def raise (world : World) : World := if world.cancel.held then { world with cancel := world.cancel.set true } else world

/-- Thirty years of 365 days. -/
def longestPause : Nat := 946080000000

/-- When a pause that starts now is over. -/
def afterPause (world : World) (milliseconds : Nat) : Nat := world.time + min milliseconds longestPause

/-- Runs an operation of the agent at a station, and what it does outside the agent. -/
def operate (world : World) (station : Nat) (step : AgentStep α) : World × α :=
  let world := world.changeStation station ({ · with agent := step.agent })
  let world := step.effects.foldl (fun world effect =>
    match effect with
    | .close link => world.closeLink link
    | .resolve _ => world.changeStation station fun host => { host with asked := host.asked + 1 }
    | .salt => { world with supply := world.supply.skip 1 }) world
  (world, step.value)

/-- Enough words for two ids that no exchange has: none of the sequence comes twice. -/
def idWords (agent : Agent) : Nat := 2 * agent.exchangeCount + 4

/-- Runs an operation of the agent at a station that draws ids. -/
def drawAt (world : World) (station : Nat) (operation : Agent → List UInt32 → Option (Agent × α × List UInt32)) :
    World × Option α :=
  match world.stations[station]? with
  | none => (world, none)
  | some host =>
    let draw words := (operation host.agent words).map fun (agent, value, rest) => ((agent, value), rest)
    match world.supply.draw? (idWords host.agent) draw with
    | none => (world, none)
    | some ((agent, value), supply) =>
      ({ world.changeStation station ({ · with agent := agent }) with supply := supply }, some value)

def addExchange (world : World) (station : Nat) (link : Link) (block : AssignBlock) :
    World × Option (Except Verdict (RelayId × RelayId)) :=
  world.drawAt station fun agent words => agent.addExchange? link block world.clock words

def assign (world : World) (station : Nat) (link : Link) (block : AssignBlock) : World × Option AssignResponse :=
  world.drawAt station fun agent words => agent.assign? link block world.clock words

def setup (world : World) (station : Nat) (connectionId : UInt64) (block : SetupBlock) : World × Option Verdict :=
  match world.stations[station]? with
  | none => (world, none)
  | some host =>
    let (agent, verdict) := host.agent.setup connectionId block world.clock
    (world.changeStation station ({ · with agent := agent }), some verdict)

def ping (world : World) (station : Nat) (connectionId : UInt64) (innerId : RelayId) : World × Option PingResponse :=
  match world.stations[station]? with
  | none => (world, none)
  | some host =>
    let (agent, response) := host.agent.ping connectionId innerId world.clock
    (world.changeStation station ({ · with agent := agent }), response)

/-- Drops what has expired at a station; a fault leaves everything. -/
def sweep (world : World) (station : Nat) (now : Micros) : World × Except Fault Nat :=
  match world.stations[station]? with
  | none => (world, .ok 0)
  | some host =>
    match host.agent.clean world.isClosed now with
    | .ok step => let (world, count) := world.operate station step; (world, .ok count)
    | .error fault => (world, .error fault)

/-- A datagram arrives at a station. -/
def process (world : World) (station : Nat) (sender : Endpoint) (relayId : RelayId) (datagram : Bytes) (now : Micros) :
    World × Except Fault RelayOutcome :=
  match world.stations[station]? with
  | none => (world, .ok (.dropped .notRelayed))
  | some host =>
    let salt := (world.supply.next 1).headD 0
    world.operate station (host.agent.process host.directory.resolve salt sender relayId datagram now)

/-- What a circuit does outside in a turn, and the circuit after it. -/
def apply (world : World) (route : Nat) (circuit : Circuit) (effects : List CircuitEffect) : World :=
  let world := effects.foldl (fun world effect =>
    match effect.deed with
    | .closeLink link => world.closeLink link
    | .closeRelayed kind =>
      world.changeRoute route fun entry => { entry with relayedClosed := entry.relayedClosed ++ [kind] }) world
  world.changeRoute route ({ · with circuit := circuit })

/-- Cuts a circuit in front of its first dead hop and says how many hops it lost. -/
def cleanRoute (world : World) (route : Nat) : World × Nat :=
  match world.routes[route]? with
  | none => (world, 0)
  | some entry =>
    let (circuit, effects, count) := entry.circuit.clean world.isClosed
    (world.apply route circuit effects, count)

end World
end OnionCircuit.Rehearsal
