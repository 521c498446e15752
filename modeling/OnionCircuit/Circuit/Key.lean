import OnionCircuit.Circuit.Hop
import OnionCircuit.Layer.Onion

/-! What it takes to encrypt for one version of a circuit. A snapshot never changes;
a circuit publishes a new one whenever its hops change. -/

namespace OnionCircuit

inductive CircuitKind
  /-- Hides where our traffic goes. -/
  | outgoing
  /-- Lends us an address behind a relay. -/
  | incoming
deriving DecidableEq

def CircuitKind.name : CircuitKind → String
  | .outgoing => "Outgoing"
  | .incoming => "Incoming"

structure CircuitKey where
  kind : CircuitKind
  /-- The endpoint and the tag key of the first hop. -/
  first : Option (Endpoint × TagKey)
  /-- The material of each hop, the first hop's first. -/
  layers : List Embryo
deriving DecidableEq

/-- Why a snapshot cannot encrypt. -/
inductive KeyError
  | noHops
  | zeroDepth
  | tooFewHops (depth : Int)
  | layer (error : LayerError)
deriving DecidableEq

def KeyError.message : KeyError → String
  | .noHops => "Circuit has no relays"
  | .zeroDepth => "Invalid relay number: 0"
  | .tooFewHops depth => s!"Encryption error: Not enough relays for depth {String.ofList (Digits.signed depth)}"
  | .layer error => "Encryption error: " ++ error.message

/-- A packet towards us whose layers are gone. -/
structure Received where
  /-- Where the packet comes from. -/
  address : Address
  /-- How many layers it had, negative on an incoming circuit. -/
  depth : Int
  content : Bytes
deriving DecidableEq

namespace CircuitKey

def empty (kind : CircuitKind) : CircuitKey := ⟨kind, none, []⟩

def ofHops (kind : CircuitKind) (hops : List Hop) : CircuitKey :=
  ⟨kind, hops.head?.map fun hop => (hop.endpoint, hop.key), hops.map (·.link.embryo)⟩

def size (key : CircuitKey) : Nat := key.layers.length

def isEmpty (key : CircuitKey) : Bool := key.layers.isEmpty

def firstEndpoint (key : CircuitKey) : Option Endpoint := key.first.map Prod.fst

/-- A positive depth asks for at least so many hops and gets all of them; a negative one means
exactly so many. Nothing but a packet that is made uses up the salt. -/
def encrypt (key : CircuitKey) (salt : UInt32) (depth : Int32) (destination : Address) (content : Bytes) :
    Except KeyError Bytes :=
  match key.first with
  | none => .error .noHops
  | some (endpoint, tagKey) =>
    let requested := depth.toInt.natAbs
    if requested = 0 then .error .zeroDepth
    else if key.size < requested then .error (.tooFewHops depth.toInt)
    else
      let layers := if depth.toInt < 0 then key.layers.take requested else key.layers
      match Tag.wrap tagKey ⟨0, endpoint.relayId⟩ (Onion.pack layers salt destination content) with
      | .ok datagram => .ok datagram
      | .error error => .error (.layer error)

/-- Encrypts with the next of the random words as salt, and waits if there is none. What is refused takes no word. -/
def encryptWith? (key : CircuitKey) (depth : Int32) (destination : Address) (content : Bytes) (words : List UInt32) :
    Option (Except KeyError Bytes × List UInt32) :=
  match key.encrypt (words.headD 0) depth destination content with
  | .error error => some (.error error, words)
  | .ok datagram => if words.isEmpty then none else some (.ok datagram, words.tail)

/-- Only datagrams from the first hop are read. -/
def decrypt? (key : CircuitKey) (endpoint : Endpoint) (datagram : Bytes) : Option Received :=
  match key.first with
  | none => none
  | some (first, tagKey) =>
    if first ≠ endpoint then none
    else do
      let packet ← (Tag.unwrap tagKey datagram).toOption
      let opened ← (Onion.unpack key.layers packet).toOption
      if 2147483648 ≤ opened.depth then none
      let depth : Int := match key.kind with
        | .outgoing => opened.depth
        | .incoming => -opened.depth
      return ⟨opened.header.address, depth, opened.content⟩

end CircuitKey
end OnionCircuit
