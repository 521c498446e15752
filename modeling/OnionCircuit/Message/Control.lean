import OnionCircuit.Layer.Material
import OnionCircuit.Message.Format

/-! The messages that build a circuit. A client asks a relay to assign it two relay
ids, tells it how to reach the next hop, and pings it to keep them alive. -/

namespace OnionCircuit

/-- How an attempt to establish a relay ended. -/
inductive Verdict
  | success
  | connectionFailure
  /-- The circuit has as many hops as it may have. -/
  | serialRelayLimit
  /-- The relay serves as many circuits as it may. -/
  | relayExchangeLimit
  | invalidEndpoint
  | duplicateEndpoint
  | duplicateRelayId
deriving DecidableEq

namespace Verdict

def all : List Verdict :=
  [.success, .connectionFailure, .serialRelayLimit, .relayExchangeLimit, .invalidEndpoint, .duplicateEndpoint,
   .duplicateRelayId]

def isSuccess (verdict : Verdict) : Bool := verdict = .success

def text : Verdict → String
  | .success => "success"
  | .connectionFailure => "connection failure"
  | .serialRelayLimit => "serial relay limit reached"
  | .relayExchangeLimit => "relay exchange limit reached"
  | .invalidEndpoint => "invalid endpoint"
  | .duplicateEndpoint => "duplicate endpoint"
  | .duplicateRelayId => "duplicate relay id"

def code : Verdict → UInt32
  | .success => 0
  | .connectionFailure => 1
  | .serialRelayLimit => 2
  | .relayExchangeLimit => 3
  | .invalidEndpoint => 4
  | .duplicateEndpoint => 5
  | .duplicateRelayId => 6

def ofCode? (code : UInt32) : Option Verdict := all.find? (·.code = code)

theorem ofCode?_code (verdict : Verdict) : ofCode? verdict.code = some verdict := by cases verdict <;> rfl

def format : Format Verdict where
  write verdict := Format.word32.write verdict.code
  read bytes := do
    let (word, rest) ← Format.word32.read bytes
    match ofCode? word with
    | some verdict => return (verdict, rest)
    | none => throw (.verdict word)

end Verdict

/-- The first message to a new hop: the key of its tag layer and what it may let in. -/
structure AssignBlock where
  key : TagKey
  allowOpenSesami : Bool
  allowUnknown : Bool
deriving DecidableEq

structure AssignResponse where
  verdict : Verdict
  innerId : RelayId
  outerId : RelayId
  /-- Where the relay wants to be reached, if not where its connection leads. -/
  address : Option Address
  retention : Int64
deriving DecidableEq

/-- The message to the previous hop: how to reach the new one. -/
structure SetupBlock where
  innerId : RelayId
  endpoint : Endpoint
  key : TagKey
deriving DecidableEq

structure SetupResponse where
  verdict : Verdict
deriving DecidableEq

structure PingRequest where
  innerId : RelayId
deriving DecidableEq

structure PingResponse where
  points : Int64
  outer : Option Endpoint
  retention : Int64
deriving DecidableEq

def AssignResponse.rejected (verdict : Verdict) : AssignResponse := ⟨verdict, 0, 0, none, 0⟩

def AssignBlock.format : Format AssignBlock :=
  ((Format.octets 32).pair (Format.flag.pair Format.flag)).convert
    (fun (key, openSesami, unknown) => ⟨key, openSesami, unknown⟩)
    fun block => (block.key, block.allowOpenSesami, block.allowUnknown)

def AssignResponse.format : Format AssignResponse :=
  (Verdict.format.pair (Format.word32.pair (Format.word32.pair
    (Format.address.optional.pair Format.signed64)))).convert
    (fun (verdict, inner, outer, address, retention) => ⟨verdict, inner, outer, address, retention⟩)
    fun response => (response.verdict, response.innerId, response.outerId, response.address, response.retention)

def SetupBlock.format : Format SetupBlock :=
  (Format.word32.pair (Format.endpoint.pair (Format.octets 32))).convert
    (fun (inner, endpoint, key) => ⟨inner, endpoint, key⟩) fun block => (block.innerId, block.endpoint, block.key)

def SetupResponse.format : Format SetupResponse := Verdict.format.convert SetupResponse.mk SetupResponse.verdict

def PingRequest.format : Format PingRequest := Format.word32.convert PingRequest.mk PingRequest.innerId

def PingResponse.format : Format PingResponse :=
  (Format.signed64.pair (Format.endpoint.optional.pair Format.signed64)).convert
    (fun (points, outer, retention) => ⟨points, outer, retention⟩)
    fun response => (response.points, response.outer, response.retention)

end OnionCircuit
