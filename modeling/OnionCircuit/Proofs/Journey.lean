import OnionCircuit.Circuit.Hop
import OnionCircuit.Proofs.ExchangeIds
import OnionCircuit.Proofs.RelayVisit

/-! A datagram on its way from relay to relay. Every site that it comes to keeps its new
state; what the site has queued for it travels on to the address that it is for. -/

namespace OnionCircuit

structure Site where
  agent : Agent
  resolve : Resolver

abbrev Sites := SocketAddress → Option Site

/-- When a datagram arrives, and the random salt that is next there. -/
structure Moment where
  now : Micros
  salt : UInt32

structure Flight where
  sender : SocketAddress
  target : SocketAddress
  datagram : Bytes

structure Journey where
  sites : Sites
  /-- Who has forwarded the datagram, in order. -/
  passed : List SocketAddress
  flight : Flight

namespace Site

def receive (site : Site) (moment : Moment) (flight : Flight) : Processed :=
  let ids := RelayIds.ofBytes flight.datagram
  site.agent.process site.resolve moment.salt ⟨ids.source, flight.sender⟩ ids.destination flight.datagram moment.now

end Site

namespace Journey

def start (sites : Sites) (flight : Flight) : Journey := ⟨sites, [], flight⟩

/-- The journey after a site has forwarded the datagram as `packet`. -/
def onward (journey : Journey) (site : Site) (after : Agent) (packet : Outbound) : Journey where
  sites := fun socket =>
    if socket = journey.flight.target then some { site with agent := after } else journey.sites socket
  passed := journey.passed ++ [journey.flight.target]
  flight := ⟨journey.flight.target, packet.socket, packet.datagram⟩

/-- The site that a datagram is for handles it. Nothing is left to follow once nobody forwards it. -/
def advance? (journey : Journey) (moment : Moment) : Option Journey :=
  match journey.sites journey.flight.target with
  | none => none
  | some site =>
    let done := site.receive moment journey.flight
    match done.value, done.agent.queue.drop site.agent.queue.length with
    | .ok (.forwarded _), [packet] => some (journey.onward site done.agent packet)
    | _, _ => none

def follow? (journey : Journey) (moments : List Moment) : Option Journey := moments.foldlM advance? journey

theorem sites_onward {journey : Journey} {site : Site} {after : Agent} {packet : Outbound} {socket : SocketAddress}
    (other : socket ≠ journey.flight.target) : (journey.onward site after packet).sites socket = journey.sites socket :=
  if_neg other

theorem advance?_of_sends {journey : Journey} {moment : Moment} {site : Site} {packet : Outbound}
    (here : journey.sites journey.flight.target = some site)
    (sends : (site.receive moment journey.flight).value = .ok (.forwarded packet.socket) ∧
      (site.receive moment journey.flight).agent.queue = site.agent.queue ++ [packet]) :
    journey.advance? moment = some (journey.onward site (site.receive moment journey.flight).agent packet) := by
  obtain ⟨value, queue⟩ := sends
  have added : (site.agent.queue ++ [packet]).drop site.agent.queue.length = [packet] := List.drop_left
  simp only [advance?, here, value, queue, added]

theorem advance?_of_dropped {journey : Journey} {moment : Moment} {site : Site} {reason : DropReason}
    (here : journey.sites journey.flight.target = some site)
    (drops : (site.receive moment journey.flight).value = .ok (.dropped reason)) : journey.advance? moment = none := by
  simp only [advance?, here, drops]

theorem follow?_append {journey middle : Journey} {first rest : List Moment}
    (reached : journey.follow? first = some middle) : journey.follow? (first ++ rest) = middle.follow? rest := by
  rw [follow?, List.foldlM_append]
  change (journey.follow? first >>= fun next => next.follow? rest) = _
  rw [reached]
  rfl

theorem follow?_take_succ {journey middle : Journey} {moments : List Moment} {count : Nat} {moment : Moment}
    (reached : journey.follow? (moments.take count) = some middle) (next : moments[count]? = some moment) :
    journey.follow? (moments.take (count + 1)) = middle.advance? moment := by
  rw [List.take_add_one, next, Option.toList_some, follow?_append reached]
  exact bind_pure _

theorem follow?_of_take {journey : Journey} {moments : List Moment} {count : Nat}
    (ended : journey.follow? (moments.take count) = none) : journey.follow? moments = none := by
  rw [← List.take_append_drop count moments, follow?, List.foldlM_append]
  change (journey.follow? (moments.take count) >>= fun next => next.follow? (moments.drop count)) = none
  rw [ended]
  rfl

end Journey

/-- Where the far side of a hop sends from: its outer id and its transport address. -/
def Hop.outerEndpoint (hop : Hop) : Endpoint := ⟨hop.outerId, hop.endpoint.socket⟩

namespace Circuit

/-- Where the packets for a hop come from on their way out: from the client, or from the hop before. -/
def origin (client : SocketAddress) (hops : List Hop) : Nat → Endpoint
  | 0 => ⟨0, client⟩
  | place + 1 => (hops[place]?.map Hop.outerEndpoint).getD ⟨0, client⟩

/-- The agent has a live exchange for a hop: both ids lead to it, and it has the secrets that the client has. -/
structure Hosts (agent : Agent) (hop : Hop) (origin : Endpoint) (exchange : Exchange) : Prop where
  inner : agent.table.find? hop.innerId = some (exchange, .outward)
  outer : agent.table.find? hop.outerId = some (exchange, .inward)
  key : exchange.innerKey = hop.key
  embryo : exchange.link.embryo = hop.link.embryo
  client : exchange.link.endpoint = origin

theorem Hosts.ids {agent : Agent} {hop : Hop} {origin : Endpoint} {exchange : Exchange}
    (hosts : Hosts agent hop origin exchange) : exchange.innerId = hop.innerId ∧ exchange.outerId = hop.outerId :=
  ⟨(ExchangeTable.mem_of_find? hosts.inner).2.symm, (ExchangeTable.mem_of_find? hosts.outer).2.symm⟩

/-- Hops at different relays, each of which knows where its packets come from and which hop follows. -/
structure Established (sites : Sites) (client : SocketAddress) (hops : List Hop) : Prop where
  hosted : ∀ place hop, hops[place]? = some hop → ∃ site exchange, sites hop.endpoint.socket = some site ∧
    Hosts site.agent hop (origin client hops place) exchange ∧
    ∀ next, hops[place + 1]? = some next → exchange.outer = some ⟨next.endpoint, next.key⟩
  apart : (hops.map fun hop => hop.endpoint.socket).Nodup
  named : ∀ hop ∈ hops, hop.innerId ≠ 0 ∧ hop.outerId ≠ 0

def embryos (hops : List Hop) : List Embryo := hops.map (·.link.embryo)

/-- How long the datagram is that a hop forwards when there are `layers` layers on its packet. -/
def forwardedSize (content : Bytes) (layers : Nat) : Nat :=
  RelayIds.size + Header.size + content.length + Cipher.tagSize * layers + Cipher.tagSize

variable {sites : Sites} {client : SocketAddress} {hops : List Hop}

theorem origin_succ {place : Nat} {hop : Hop} (here : hops[place]? = some hop) :
    origin client hops (place + 1) = hop.outerEndpoint := by
  simp [origin, here]

theorem apart_at (apart : (hops.map fun hop => hop.endpoint.socket).Nodup) {first second : Nat} {hop other : Hop}
    (here : hops[first]? = some hop) (there : hops[second]? = some other) (different : first ≠ second) :
    hop.endpoint.socket ≠ other.endpoint.socket := by
  intro same
  have one : (hops.map fun hop => hop.endpoint.socket)[first]? = some hop.endpoint.socket := by simp [here]
  have two : (hops.map fun hop => hop.endpoint.socket)[second]? = some hop.endpoint.socket := by simp [there, same]
  obtain ⟨inside, _⟩ := List.getElem?_eq_some_iff.mp one
  exact different ((List.getElem?_inj inside apart).mp (one.trans two.symm))

section Fresh
variable (limits : AgentLimits) (client : SocketAddress) (hops : List Hop)

/-- What building a circuit leaves at the relay of a hop. -/
def exchangeAt (place : Nat) (hop : Hop) : Exchange :=
  { Exchange.start hop.innerId hop.outerId { hop.link with endpoint := origin client hops place }
      ⟨hop.key, true, true⟩ limits 0 with
    outer := hops[place + 1]?.map fun next => ⟨next.endpoint, next.key⟩ }

def agentAt (place : Nat) (hop : Hop) : Agent :=
  ⟨{ toAgentLimits := limits }, ⟨[exchangeAt limits client hops place hop]⟩, EndpointCache.empty 1, []⟩

/-- Relays that serve one circuit and nobody else, and find every endpoint where its address says. -/
def freshSites : Sites := fun socket => do
  let place ← hops.findIdx? fun hop => hop.endpoint.socket = socket
  let hop ← hops[place]?
  return ⟨agentAt limits client hops place hop, fun address => some ⟨address.relayId, address.socket⟩⟩

variable {limits client hops}

theorem hosts_agentAt {place : Nat} {hop : Hop} (different : hop.innerId ≠ hop.outerId) :
    Hosts (agentAt limits client hops place hop) hop (origin client hops place) (exchangeAt limits client hops place hop) where
  inner := by simp [agentAt, exchangeAt, Exchange.start, ExchangeTable.find?]
  outer := by simp [agentAt, exchangeAt, Exchange.start, ExchangeTable.find?, different]
  key := rfl
  embryo := rfl
  client := rfl

theorem freshSites_at (apart : (hops.map fun hop => hop.endpoint.socket).Nodup) {place : Nat} {hop : Hop}
    (here : hops[place]? = some hop) : freshSites limits client hops hop.endpoint.socket =
      some ⟨agentAt limits client hops place hop, fun address => some ⟨address.relayId, address.socket⟩⟩ := by
  obtain ⟨inside, same⟩ := List.getElem?_eq_some_iff.mp here
  have first : hops.findIdx? (fun other => other.endpoint.socket = hop.endpoint.socket) = some place := by
    rw [List.findIdx?_eq_some_iff_getElem]
    refine ⟨inside, by simp [same], ?_⟩
    intro earlier before
    have different := apart_at apart (List.getElem?_eq_getElem (by omega)) here (Nat.ne_of_lt before)
    simpa using different
  simp only [freshSites, first, here, bind, Option.bind, pure]

theorem hasRoom_of_freshSites (capable : 0 < limits.queueCapacity.toNat) {socket : SocketAddress} {site : Site}
    (found : freshSites limits client hops socket = some site) : site.agent.HasRoom := by
  obtain ⟨place, _, found⟩ := Option.bind_eq_some_iff.mp found
  obtain ⟨hop, _, found⟩ := Option.bind_eq_some_iff.mp found
  cases found
  exact capable

theorem established_freshSites (apart : (hops.map fun hop => hop.endpoint.socket).Nodup)
    (named : ∀ hop ∈ hops, hop.innerId ≠ 0 ∧ hop.outerId ≠ 0 ∧ hop.innerId ≠ hop.outerId) :
    Established (freshSites limits client hops) client hops where
  hosted := by
    intro place hop here
    obtain ⟨_, _, different⟩ := named hop (List.mem_of_getElem? here)
    refine ⟨_, _, freshSites_at apart here, hosts_agentAt different, ?_⟩
    intro next there
    simp only [exchangeAt, there, Option.map_some]
  apart := apart
  named := fun hop member => ⟨(named hop member).1, (named hop member).2.1⟩

def numberedHop (number : UInt8) : Hop :=
  let socket := SocketAddress.v4 ⟨[10, 0, 0, number], rfl⟩ 9000
  { endpoint := ⟨number.toUInt32, socket⟩
    address := Address.ofSocket 0 socket
    key := ⟨List.replicate 32 number, List.length_replicate⟩
    outerId := number.toUInt32 + 256
    retention := 30000000
    link :=
      { ref := number.toNat
        connectionId := number.toUInt64
        endpoint := ⟨0, socket⟩
        address := Address.ofSocket 0 socket
        embryo :=
          ⟨⟨List.replicate 32 number, List.length_replicate⟩, 0, ⟨List.replicate 16 number, List.length_replicate⟩⟩ } }

def numberedSocket (number : UInt8) : SocketAddress := (numberedHop number).endpoint.socket

end Fresh
end Circuit

end OnionCircuit
