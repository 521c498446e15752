import OnionCircuit.Rehearsal.World

/-! Datagrams on their way through the stations of a rehearsal. What an agent queues for
another station arrives there, first in, first out. -/

namespace OnionCircuit.Rehearsal

structure InFlight where
  sender : SocketAddress
  target : SocketAddress
  datagram : Bytes

inductive DeliveryEvent
  /-- No station has this address. -/
  | left (flight : InFlight)
  | ended (station : SocketAddress) (outcome : RelayOutcome)
  /-- The datagrams have come to too many stations. -/
  | exhausted

inductive DeliveryError
  | short (cause : ShortDatagram)
  | fault (cause : Fault)

namespace World

/-- How many stations datagrams may come to before the next one is too many. -/
def visits : Nat := 63

/-- The station with an address, the first by name. One whose name was given to another station
has left. -/
def stationAt? (world : World) (socket : SocketAddress) : Option Nat :=
  let present := world.stations.zipIdx.filter fun (station, index) =>
    decide (station.socket = some socket) && decide (world.station? station.name = some index)
  (present.mergeSort fun a b => decide (a.1.name ≤ b.1.name)).head?.map (·.2)

/-- Everything that waits at a station leaves it. -/
def drain (world : World) (station : Nat) : World × List Outbound :=
  match world.stations[station]? with
  | none => (world, [])
  | some host =>
    let (agent, sent) := host.agent.drain
    (world.changeStation station ({ · with agent := agent }), sent)

/-- A datagram arrives at a station with an address. -/
def arrive (world : World) (station : Nat) (flight : InFlight) :
    World × Except DeliveryError (List InFlight × Option DeliveryEvent) :=
  match Datagram.readIds flight.datagram with
  | .error error => (world, .error (.short error))
  | .ok ids =>
    match world.process station ⟨ids.source, flight.sender⟩ ids.destination flight.datagram world.clock with
    | (world, .error fault) => (world, .error (.fault fault))
    | (world, .ok (.forwarded _)) =>
      let (world, sent) := world.drain station
      (world, .ok (sent.map fun packet => ⟨flight.target, packet.socket, packet.datagram⟩, none))
    | (world, .ok outcome) => (world, .ok ([], some (.ended flight.target outcome)))

/-- The next datagrams that reach a station, after the events so far. Datagrams that leave are passed
over on the way. -/
def follow? (world : World) (fuel : Nat) (events : List DeliveryEvent) (flights : List InFlight) :
    World × Except DeliveryError (List DeliveryEvent) :=
  let away := flights.takeWhile fun flight => (world.stationAt? flight.target).isNone
  let events := events ++ away.map .left
  match fuel, flights.drop away.length with
  | _, [] => (world, .ok events)
  | 0, _ :: _ => (world, .ok (events ++ [.exhausted]))
  | fuel + 1, flight :: others =>
    match world.stationAt? flight.target with
    | none => (world, .ok events)
    | some station =>
      match world.arrive station flight with
      | (world, .error error) => (world, .error error)
      | (world, .ok (sent, event)) => follow? world fuel (events ++ event.toList) (others ++ sent)

def send (world : World) (flight : InFlight) : World × Except DeliveryError (List DeliveryEvent) :=
  world.follow? visits [] [flight]

end World
end OnionCircuit.Rehearsal
