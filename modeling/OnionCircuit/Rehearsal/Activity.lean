import OnionCircuit.Rehearsal.World

/-! Calls in a rehearsal. A call runs until it has to wait for a later time; the far end
of a link that it asks may be busy with its interludes meanwhile. -/

namespace OnionCircuit.Rehearsal

/-- A far end between two of its interludes. -/
structure Performance where
  during : List Interlude
  /-- How it wakes its caller in the end; it hangs if it does not. -/
  wake : Option Wake
  /-- The circuit that it is tearing down. -/
  closing : Option (Nat × Call)

/-- When a call that waits goes on. -/
inductive Prospect
  | now (wake : Wake)
  | later (time : Nat) (performance : Option Performance)
  | never

/-- A call that waits for a time. -/
structure Activity where
  route : Nat
  call : Call
  time : Nat
  performance : Option Performance

inductive Progress
  | finished (result : CallResult)
  | waiting (activity : Activity)
  /-- Nothing will wake the call. -/
  | stuck

namespace World

/-- A turn of a tear down that a far end has started; the time and the call if it pauses. -/
def closeAside (world : World) (route : Nat) (turn : Turn) : World × Option (Nat × Call) :=
  let world := world.apply route turn.circuit turn.effects
  match turn.next with
  | .waiting (.pause milliseconds) call => (world, some (world.afterPause milliseconds.toNat, call))
  | _ => (world, none)

/-- Goes through interludes until one takes time. Who hangs makes the caller give up, if somebody
can still tell the caller to. -/
def perform (world : World) (wake : Option Wake) : List Interlude → World × Prospect
  | [] =>
    match wake with
    | some wake => (world, .now wake)
    | none => if world.cancel.held then (world.raise, .now .cancelled) else (world, .never)
  | .sleep milliseconds :: during =>
    if milliseconds = 0 then world.perform wake during
    else (world, .later (world.afterPause milliseconds) (some ⟨during, wake, none⟩))
  | .closeLink link :: during => (world.closeLink link).perform wake during
  | .cleanCircuit route :: during => (world.cleanRoute route).1.perform wake during
  | .closeCircuit route :: during =>
    match world.routes[route]? with
    | none => world.perform wake during
    | some entry =>
      match world.closeAside route entry.circuit.close with
      | (world, none) => world.perform wake during
      | (world, some (time, call)) => (world, .later time (some ⟨during, wake, some (route, call)⟩))

/-- A far end goes on after a pause. -/
def continuePerformance (world : World) (performance : Performance) : World × Prospect :=
  match performance.closing with
  | none => world.perform performance.wake performance.during
  | some (route, call) =>
    match world.routes[route]?.bind fun entry => call.resume entry.circuit .ready with
    | none => world.perform performance.wake performance.during
    | some turn =>
      match world.closeAside route turn with
      | (world, none) => world.perform performance.wake performance.during
      | (world, some (time, call)) => (world, .later time (some { performance with closing := some (route, call) }))

/-- The far end of a link is asked. It answers as scripted, whether closed or not; without a script
only an open one answers. -/
def ask (world : World) (link : Link) (scene : Option (Scene α)) (wake : Option α → Wake)
    (answer : World → Wire → World × Option α) : World × Prospect :=
  match scene, world.wires[link.ref]? with
  | some scene, _ => world.perform (scene.reply.wake? wake) scene.during
  | none, none => (world, .never)
  | none, some wire =>
    if wire.isClosed then (world, .now (wake none))
    else
      let (world, response) := answer world wire
      (world, .now (wake response))

def askSetup (world : World) (link : Link) (block : SetupBlock) : World × Prospect :=
  let scene := world.wires[link.ref]?.bind fun wire => wire.setupScenes.head?
  let world := world.changeWire link.ref fun wire =>
    { wire with setups := wire.setups ++ [block], setupScenes := wire.setupScenes.tail }
  world.ask link scene .setup fun world wire =>
    match wire.station with
    | some station => world.setup station wire.link.connectionId block
    | none => (world, some .success)

/-- What a far end without a station answers. -/
def plainPing : PingResponse := ⟨1000, none, 30000000⟩

def askPing (world : World) (link : Link) (request : PingRequest) : World × Prospect :=
  let scene := world.wires[link.ref]?.bind fun wire => wire.pingScenes.head?
  let world := world.changeWire link.ref fun wire =>
    { wire with pings := wire.pings + 1, pingScenes := wire.pingScenes.tail }
  world.ask link scene .ping fun world wire =>
    match wire.station with
    | some station => world.ping station wire.link.connectionId request.innerId
    | none => (world, some plainPing)

/-- Whom a call waits for. Nobody is asked and nothing paused once the call is cancelled. -/
def await (world : World) (wait : Wait) : World × Prospect :=
  match wait with
  | .growth => (world, .never)
  | .setup link block => if world.cancel.raised then (world, .now .cancelled) else world.askSetup link block
  | .ping link request => if world.cancel.raised then (world, .now .cancelled) else world.askPing link request
  | .pause milliseconds =>
    if world.cancel.raised then (world, .now .cancelled) else (world, .later (world.afterPause milliseconds.toNat) none)

/-- A turn of a call, and when the call goes on if it has not returned. -/
def take (world : World) (route : Nat) (turn : Turn) : World × Sum CallResult (Call × Prospect) :=
  let world := world.apply route turn.circuit turn.effects
  match turn.next with
  | .returned result => (world, .inl result)
  | .waiting wait call =>
    let (world, prospect) := world.await wait
    (world, .inr (call, prospect))

/-- A call goes on until it has to wait, for no more turns than the fuel. -/
def meet : Nat → World → Nat → Call → Prospect → World × Progress
  | _, world, route, call, .later time performance => (world, .waiting ⟨route, call, time, performance⟩)
  | fuel + 1, world, route, call, .now wake =>
    match world.routes[route]?.bind fun entry => call.resume entry.circuit wake with
    | none => (world, .stuck)
    | some turn =>
      match world.take route turn with
      | (world, .inl result) => (world, .finished result)
      | (world, .inr (call, prospect)) => meet fuel world route call prospect
  | _, world, _, _, _ => (world, .stuck)

/-- A call with as many turns as it has left. -/
def goOn (world : World) (route : Nat) (call : Call) (prospect : Prospect) : World × Progress :=
  meet call.remaining world route call prospect

/-- A call from its first turn. -/
def begin (world : World) (route : Nat) (turn : Turn) : World × Progress :=
  match world.take route turn with
  | (world, .inl result) => (world, .finished result)
  | (world, .inr (call, prospect)) => world.goOn route call prospect

end World
end OnionCircuit.Rehearsal
