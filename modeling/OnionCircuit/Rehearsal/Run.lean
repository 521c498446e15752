import OnionCircuit.Rehearsal.Activity

/-! Calls in a rehearsal from start to end. Time jumps to when the call goes on, or to
when it is cancelled if that comes first. -/

namespace OnionCircuit.Rehearsal

namespace World

/-- A waiting call goes on because its time has come. -/
def proceed (world : World) (activity : Activity) : World × Progress :=
  let (world, prospect) : World × Prospect :=
    match activity.performance with
    | some performance => world.continuePerformance performance
    | none => (world, .now .ready)
  world.goOn activity.route activity.call prospect

/-- A waiting call goes on because it was cancelled; the far end is left alone. -/
def abandon (world : World) (activity : Activity) : World × Progress :=
  world.goOn activity.route activity.call (.now .cancelled)

/-- How often calls can wait before all scripts are played and all circuits torn down, next to
far ends that are at work already. -/
def waits (world : World) (performance : Option Performance) : Nat :=
  let scripted := world.wires.flatMap fun wire =>
    wire.setupScenes.flatMap Scene.during ++ wire.pingScenes.flatMap Scene.during
  let begun := (performance.map Performance.during).getD []
  let closing := ((performance.bind Performance.closing).map fun (_, call) => call.remaining).getD 0
  let hops := (world.routes.flatMap fun entry => entry.circuit.hops).length
  closing + hops + (scripted.length + begun.length) * (hops + 1) + 1

/-- Runs a call to its end. A canceller comes too late for what happens at its very time. -/
def finish (cancelAt : Option Nat) : Nat → World → Progress → World × Option CallResult
  | _, world, .finished result => (world, some result)
  | _, world, .stuck => (world, none)
  | 0, world, .waiting _ => (world, none)
  | fuel + 1, world, .waiting activity =>
    let (world, progress) :=
      match cancelAt.filter fun time => time < activity.time && world.cancel.held && !world.cancel.raised with
      | some time => { world with time := max world.time time }.raise.abandon activity
      | none => { world with time := activity.time }.proceed activity
    finish cancelAt fuel world progress

/-- Runs a call that starts with a turn of a circuit. -/
def run (world : World) (route : Nat) (cancelAt : Option Nat) (start : Circuit → Turn) : World × Option CallResult :=
  match world.routes[route]? with
  | none => (world, none)
  | some entry =>
    let (next, progress) := world.begin route (start entry.circuit)
    finish cancelAt (world.waits none) next progress

/-- How a rehearsed call is cancelled. -/
structure Cancellation where
  fromStart : Bool := false
  after : Option Nat := none
  /-- Whether there is somebody who can cancel it. -/
  held : Bool := true

def withCancellation (world : World) (cancellation : Cancellation) : World × Option Nat :=
  ({ world with cancel := ⟨cancellation.fromStart, false, cancellation.held⟩ }, cancellation.after.map world.afterPause)

/-- Adds hops one after the other, as calls do that start at once and take turns. -/
def join (world : World) (route : Nat) (cancellation : Cancellation) (candidates : List Candidate) :
    World × List (Option Verdict) :=
  let (world, cancelAt) := world.withCancellation cancellation
  candidates.foldl (fun (world, verdicts) candidate =>
    match world.run route cancelAt fun circuit => circuit.join candidate with
    | (world, some (.joined verdict)) => (world, verdicts ++ [some verdict])
    | (world, _) => (world, verdicts ++ [none])) (world, [])

/-- Tears a circuit down; returns how long that took and which links it closed when. -/
def close (world : World) (route : Nat) (cancellation : Cancellation) : World × Nat × List (LinkRef × Nat) :=
  let start := world.time
  let earlier := world.closures.length
  let (world, cancelAt) := world.withCancellation cancellation
  let (world, _) := world.run route cancelAt Circuit.close
  (world, world.time - start, (world.closures.drop earlier).map fun (link, time) => (link, time - start))

/-- Pings the hops of a circuit; returns how many answered. -/
def maintain (world : World) (route : Nat) (cancellation : Cancellation) : World × Option Nat :=
  let (world, cancelAt) := world.withCancellation cancellation
  match world.run route cancelAt Circuit.maintain with
  | (world, some (.pinged answered)) => (world, some answered)
  | (world, _) => (world, none)

end World
end OnionCircuit.Rehearsal
