import OnionCircuit.Circuit.Key

/-! A circuit: its hops from the client outwards and the key published for them. New
hops are judged against the ones that are there, and every change of the hops
publishes a new key. -/

namespace OnionCircuit

structure CircuitConfig where
  /-- How many hops an outgoing circuit may have. -/
  maxRelays : UInt64 := 5
  /-- Milliseconds between two hops while the circuit is torn down. -/
  closeDelay : UInt64 := 100
  /-- Milliseconds between two rounds of maintenance. -/
  maintainInterval : UInt64 := 10000
  /-- What new hops are asked to let in. -/
  allowOpenSesami : Bool := false
  allowUnknown : Bool := false
deriving DecidableEq

structure Circuit where
  kind : CircuitKind
  config : CircuitConfig
  hops : List Hop
  key : CircuitKey
  /-- Whether a hop is being added; only one is at a time. -/
  growing : Bool
deriving DecidableEq

namespace Circuit

def start (kind : CircuitKind) (config : CircuitConfig) : Circuit := ⟨kind, config, [], CircuitKey.empty kind, false⟩

/-- An incoming circuit has one hop. -/
def maxRelays (circuit : Circuit) : Nat :=
  match circuit.kind with
  | .incoming => 1
  | .outgoing => circuit.config.maxRelays.toNat

def size (circuit : Circuit) : Nat := circuit.hops.length

/-- Where the outermost hop lets others reach us. -/
def relayedAddress? (circuit : Circuit) : Option Address := circuit.hops.getLast?.map Hop.outerAddress

/-- The circuit with other hops and the key for them. -/
def withHops (circuit : Circuit) (hops : List Hop) : Circuit :=
  { circuit with hops := hops, key := CircuitKey.ofHops circuit.kind hops }

/-- What to ask of the next hop, and the random words that are left. -/
def newBlock? (circuit : Circuit) (words : List UInt32) : Option (AssignBlock × List UInt32) := do
  let (key, words) ← TagKey.draw? words
  return (⟨key, circuit.config.allowOpenSesami, circuit.config.allowUnknown⟩, words)

/-- Whether a hop may join: it was assigned, there is room, its ids are not zero, and neither its
address nor its ids are in the circuit already. -/
def judge (circuit : Circuit) (response : AssignResponse) (link : Link) : Verdict :=
  if response.verdict ≠ .success then response.verdict
  else if circuit.maxRelays ≤ circuit.size then .serialRelayLimit
  else if response.innerId = 0 ∨ response.outerId = 0 then .invalidEndpoint
  else if circuit.hops.any fun hop => hop.endpoint.socket = (Hop.locate response link).socket then .duplicateEndpoint
  else
    let ids := [response.innerId, response.outerId]
    let taken := circuit.hops.any fun hop => ids.contains hop.innerId || ids.contains hop.outerId
    if response.innerId = response.outerId ∨ taken then .duplicateRelayId else .success

end Circuit
end OnionCircuit
