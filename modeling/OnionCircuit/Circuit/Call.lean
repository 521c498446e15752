import OnionCircuit.Circuit.Basic

/-! Calls on a circuit as turns. A turn runs without interruption and either returns or
names what it waits for; calls take their turns in any order, and what a call needs
to go on is all in its suspended form. -/

namespace OnionCircuit

inductive CircuitDeed
  | closeLink (link : LinkRef)
  /-- Everything that was routed through a circuit of this kind is closed. -/
  | closeRelayed (kind : CircuitKind)
deriving DecidableEq

/-- What a turn does outside the circuit, and the circuit at that moment. -/
structure CircuitEffect where
  deed : CircuitDeed
  circuit : Circuit
deriving DecidableEq

/-- A hop that was assigned and is to join. -/
structure Candidate where
  block : AssignBlock
  response : AssignResponse
  link : Link
deriving DecidableEq

inductive Wait
  /-- Until no other hop is being added. -/
  | growth
  | setup (link : Link) (block : SetupBlock)
  | ping (link : Link) (request : PingRequest)
  | pause (milliseconds : UInt64)
deriving DecidableEq

/-- A call between two of its turns. -/
inductive Call
  | joining (candidate : Candidate)
  /-- The last hop is being told about a new one. -/
  | announcing (last new : Hop)
  /-- These hops are still to be closed, the outermost first. -/
  | closing (hops : List Hop)
  /-- These hops are still to be pinged, and so many have answered. -/
  | pinging (hops : List Hop) (answered : Nat)
deriving DecidableEq

/-- Why a call goes on. -/
inductive Wake
  /-- The way is free, or the pause is over. -/
  | ready
  | setup (answer : Option Verdict)
  | ping (answer : Option PingResponse)
  | cancelled
deriving DecidableEq

inductive CallResult
  | joined (verdict : Verdict)
  | closed
  | pinged (answered : Nat)
deriving DecidableEq

inductive Next
  | returned (result : CallResult)
  | waiting (wait : Wait) (call : Call)
deriving DecidableEq

structure Turn where
  circuit : Circuit
  effects : List CircuitEffect
  next : Next
deriving DecidableEq

namespace Circuit

/-- A hop joins if the circuit still ends where it ended when the hop was judged. -/
def commit (circuit : Circuit) (last : Option Hop) (new : Hop) : Turn :=
  let circuit := { circuit with growing := false }
  if circuit.hops.getLast?.map Hop.endpoint = last.map Hop.endpoint then
    ⟨circuit.withHops (circuit.hops ++ [new]), [], .returned (.joined .success)⟩
  else ⟨circuit, [⟨.closeLink new.link.ref, circuit⟩], .returned (.joined .connectionFailure)⟩

/-- Judges a candidate. The first hop joins at once; any other is announced to the last one. -/
def join (circuit : Circuit) (candidate : Candidate) : Turn :=
  if circuit.growing then ⟨circuit, [], .waiting .growth (.joining candidate)⟩
  else
    let verdict := circuit.judge candidate.response candidate.link
    if verdict ≠ .success then ⟨circuit, [], .returned (.joined verdict)⟩
    else
      let new := Hop.ofAssignment candidate.block candidate.response candidate.link
      match circuit.hops.getLast? with
      | none => circuit.commit none new
      | some last =>
        ⟨{ circuit with growing := true }, [],
          .waiting (.setup last.link ⟨last.innerId, new.endpoint, new.key⟩) (.announcing last new)⟩

/-- What became of the announcement; without an answer the hop is unreachable. -/
def announced (circuit : Circuit) (last new : Hop) (answer : Option Verdict) : Turn :=
  let fail (verdict : Verdict) : Turn :=
    let circuit := { circuit with growing := false }
    ⟨circuit, [⟨.closeLink new.link.ref, circuit⟩], .returned (.joined verdict)⟩
  match answer with
  | some .success => circuit.commit (some last) new
  | some _ => fail .invalidEndpoint
  | none => fail .connectionFailure

/-- Closes hops, the outermost first, each after the circuit was cut before it. Unless it has to
hurry it pauses before the next one. -/
def tearDown (circuit : Circuit) (hurried : Bool) : List Hop → Turn
  | [] =>
    let circuit := circuit.withHops []
    ⟨circuit, [⟨.closeRelayed circuit.kind, circuit⟩], .returned .closed⟩
  | hop :: inner =>
    let circuit := circuit.withHops (circuit.hops.take inner.length)
    let effect : CircuitEffect := ⟨.closeLink hop.link.ref, circuit⟩
    if inner.isEmpty || hurried then
      let turn := circuit.tearDown hurried inner
      { turn with effects := effect :: turn.effects }
    else ⟨circuit, [effect], .waiting (.pause circuit.config.closeDelay) (.closing inner)⟩

def close (circuit : Circuit) : Turn := circuit.tearDown (circuit.config.closeDelay = 0) circuit.hops.reverse

/-- Pings one hop after the other. -/
def pingNext (circuit : Circuit) (answered : Nat) : List Hop → Turn
  | [] => ⟨circuit, [], .returned (.pinged answered)⟩
  | hop :: hops => ⟨circuit, [], .waiting (.ping hop.link ⟨hop.innerId⟩) (.pinging hops answered)⟩

def maintain (circuit : Circuit) : Turn := circuit.pingNext 0 circuit.hops

/-- Keeps the hops in front of the first one whose link is closed, and closes all others. -/
def clean (circuit : Circuit) (isClosed : LinkRef → Bool) : Circuit × List CircuitEffect × Nat :=
  let removed := circuit.hops.dropWhile fun hop => !isClosed hop.link.ref
  if removed.isEmpty then (circuit, [], 0)
  else
    let circuit := circuit.withHops (circuit.hops.takeWhile fun hop => !isClosed hop.link.ref)
    (circuit, removed.map fun hop => ⟨.closeLink hop.link.ref, circuit⟩, removed.length)

end Circuit

namespace Call

/-- The next turn of a call; a wake that is not for it leaves it waiting. -/
def resume (circuit : Circuit) : Call → Wake → Option Turn
  | .joining candidate, .ready => some (circuit.join candidate)
  | .announcing last new, .setup answer => some (circuit.announced last new answer)
  | .announcing last new, .cancelled => some (circuit.announced last new none)
  | .closing hops, .ready => some (circuit.tearDown false hops)
  | .closing hops, .cancelled => some (circuit.tearDown true hops)
  | .pinging hops answered, .ping answer => some (circuit.pingNext (if answer.isSome then answered + 1 else answered) hops)
  | .pinging _ answered, .cancelled => some ⟨circuit, [], .returned (.pinged answered)⟩
  | _, _ => none

/-- Shrinks with every turn of a call that has started. -/
def remaining : Call → Nat
  | .joining _ => 2
  | .announcing _ _ => 1
  | .closing hops => hops.length
  | .pinging hops _ => hops.length + 1

end Call
end OnionCircuit
