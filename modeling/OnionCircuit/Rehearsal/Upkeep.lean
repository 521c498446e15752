import OnionCircuit.Rehearsal.Run
import OnionCircuit.Upkeep.Watch

/-! Background loops in a rehearsal, next to somebody who does things one after the
other. Of the moves that a loop may make it always makes the first. -/

namespace OnionCircuit.Rehearsal

inductive LoopTask
  /-- A station drops what has expired. -/
  | sweep (station : Nat)
  /-- A circuit is cut in front of its first dead hop, and then its hops are pinged. -/
  | maintain (route : Nat)

inductive LoopError
  | fault (cause : Fault)
  | period (cause : ZeroPeriod)

def LoopError.message : LoopError → String
  | .fault cause => cause.message
  | .period cause => cause.message

inductive LoopState
  /-- The loop has not run yet. -/
  | unstarted
  | idle (ticker : Ticker)
  | busy (ticker : Ticker) (activity : Activity)
  /-- Nothing will wake the loop. -/
  | stuck
  | ended
  | failed (error : LoopError)

structure Loop where
  world : World
  task : LoopTask
  /-- Milliseconds between two ticks. -/
  period : Nat
  state : LoopState

namespace Loop

/-- The loop after a round that has come so far. -/
def settle (loop : Loop) (ticker : Ticker) : World × Progress → Loop
  | (world, .waiting activity) => { loop with world := world, state := .busy ticker activity }
  | (world, .stuck) => { loop with world := world, state := .stuck }
  | (world, .finished _) => { loop with world := world, state := .idle ticker }

/-- One round of the task. -/
def round (loop : Loop) (ticker : Ticker) : Loop :=
  match loop.task with
  | .sweep station =>
    match loop.world.sweep station loop.world.clock with
    | (world, .ok _) => { loop with world := world, state := .idle ticker }
    | (world, .error fault) => { loop with world := world, state := .failed (.fault fault) }
  | .maintain route =>
    let world := (loop.world.cleanRoute route).1
    match world.routes[route]? with
    | none => { loop with world := world, state := .idle ticker }
    | some entry => loop.settle ticker (world.begin route entry.circuit.maintain)

/-- What the loop does at this moment, as long as there is something; no more steps than the fuel. -/
def react : Nat → Loop → Loop
  | 0, loop => loop
  | fuel + 1, loop =>
    let world := loop.world
    match loop.state with
    | .stuck | .ended | .failed _ => loop
    | .unstarted =>
      match Ticker.start loop.period world.time with
      | .ok ticker => react fuel { loop with state := .idle ticker }
      | .error error => { loop with state := .failed (.period error) }
    | .busy ticker activity =>
      if activity.time ≤ world.time then react fuel (loop.settle ticker (world.proceed activity))
      else if world.cancel.raised then react fuel (loop.settle ticker (world.abandon activity))
      else loop
    | .idle ticker =>
      let watched (watch : Watch) : Loop := { loop with world := { world with cancel := watch.signal } }
      match (Watch.mk world.cancel ticker).moves world.time with
      | [] => loop
      | .stop :: _ => { loop with state := .ended }
      | .stay watch :: _ => react fuel (watched watch)
      | .round watch :: _ => react fuel ((watched watch).round watch.ticker)

/-- A start, a look, and ticks that are late within the tolerance fit in one moment. -/
def moment : Nat := Ticker.tolerance + 8

def next? (loop : Loop) : Option Nat :=
  match loop.state with
  | .idle ticker => some ticker.due
  | .busy _ activity => some activity.time
  | _ => none

/-- Lets the loop run up to a time, or to its end; time jumps at most as often as the fuel says. -/
def advance (limit : Option Nat) : Nat → Loop → Loop
  | 0, loop => loop
  | fuel + 1, loop =>
    let loop := react moment loop
    match loop.next? with
    | none => loop
    | some time =>
      if limit.all (time < ·) then advance limit fuel { loop with world := { loop.world with time := time } }
      else loop

/-- Something that is done next to the loop. -/
inductive Action
  | sleep (milliseconds : Nat)
  | closeLink (link : LinkRef)
  /-- Sets the signal and lets the loop react. -/
  | send (raised : Bool)
  | setClock (now : Micros)

/-- Who sleeps until a tick is awake before it. -/
def act (loop : Loop) : Action → Loop
  | .sleep milliseconds =>
    if milliseconds = 0 then loop
    else
      let time := loop.world.afterPause milliseconds
      let loop := advance (some time) (milliseconds + 1) loop
      { loop with world := { loop.world with time := time } }
  | .closeLink link => { loop with world := loop.world.closeLink link }
  | .send raised => react moment { loop with world := { loop.world with cancel := loop.world.cancel.set raised } }
  | .setClock now => { loop with world := { loop.world with clock := Clock.reading now } }

inductive Stop
  | cancel
  /-- Nobody is left who could raise the signal. -/
  | drop

/-- Stops the loop and waits for its end. -/
def halt (loop : Loop) (stop : Stop) : Loop :=
  let signal := match stop with
    | .cancel => loop.world.cancel.set true
    | .drop => loop.world.cancel.release
  let performance := match loop.state with
    | .busy _ activity => activity.performance
    | _ => none
  advance none (loop.world.waits performance + 1) { loop with world := { loop.world with cancel := signal } }

/-- What the task looks after: exchanges or hops. -/
def count (loop : Loop) : Nat :=
  match loop.task with
  | .sweep station => (loop.world.stations[station]?.map fun host => host.agent.exchangeCount).getD 0
  | .maintain route => (loop.world.routes[route]?.map fun entry => entry.circuit.size).getD 0

/-- Runs a loop next to some actions; returns the counts after each of them. -/
def rehearse (world : World) (task : LoopTask) (period : Nat) (actions : List Action) (stop : Stop) :
    World × Except LoopError (List Nat × Bool) :=
  let loop : Loop := ⟨{ world with cancel := {} }, task, min period World.longestPause, .unstarted⟩
  let (loop, seen) := actions.foldl (fun (loop, seen) action =>
    let loop := act loop action
    (loop, seen ++ [loop.count])) (loop, [])
  let loop := loop.halt stop
  match loop.state with
  | .failed error => (loop.world, .error error)
  | .ended => (loop.world, .ok (seen, true))
  | _ => (loop.world, .ok (seen, false))

end Loop
end OnionCircuit.Rehearsal
