import OnionCircuit.Relay.Checked
import OnionCircuit.Net.Address

/-! The endpoints that logical addresses resolved to, and until when each may send
unasked. The cache keeps the addresses touched last; looking whether an address is
present touches nothing. -/

namespace OnionCircuit

structure CachedEndpoint where
  endpoint : Endpoint
  openUntil : Micros
deriving DecidableEq

/-- The address touched last comes first. -/
structure EndpointCache where
  capacity : Nat
  entries : List (Address × CachedEndpoint)
deriving DecidableEq

abbrev Resolver := Address → Option Endpoint

namespace EndpointCache

def defaultCapacity : Nat := 1000

/-- A cache holds at least one address. -/
def empty (capacity : Nat) : EndpointCache := ⟨max capacity 1, []⟩

def size (cache : EndpointCache) : Nat := cache.entries.length

def isEmpty (cache : EndpointCache) : Bool := cache.entries.isEmpty

def clear (cache : EndpointCache) : EndpointCache := { cache with entries := [] }

def get? (cache : EndpointCache) (address : Address) : Option CachedEndpoint := cache.entries.lookup address

def contains (cache : EndpointCache) (address : Address) : Bool := (cache.get? address).isSome

/-- Puts an entry in front, in place of an older one of its address; the last entries have to
leave a cache that is too full. -/
def put (cache : EndpointCache) (address : Address) (entry : CachedEndpoint) : EndpointCache :=
  let others := cache.entries.filter (·.1 ≠ address)
  { cache with entries := ((address, entry) :: others).take cache.capacity }

/-- What a lookup found, and whether it had to ask the resolver. -/
structure Lookup where
  endpoint : Option Endpoint
  cache : EndpointCache
  asked : Bool

/-- An address that is not cached is resolved, and cached closed. -/
def lookup (cache : EndpointCache) (resolve : Resolver) (address : Address) : Lookup :=
  match cache.get? address with
  | some entry => ⟨some entry.endpoint, cache.put address entry, false⟩
  | none =>
    match resolve address with
    | some endpoint => ⟨some endpoint, cache.put address ⟨endpoint, 0⟩, true⟩
    | none => ⟨none, cache, true⟩

theorem isSome_lookup (cache : EndpointCache) {resolve : Resolver} {address : Address} {endpoint : Endpoint}
    (resolves : resolve address = some endpoint) : (cache.lookup resolve address).endpoint.isSome = true := by
  unfold lookup
  cases cache.get? address with
  | some entry => rfl
  | none => simp only [resolves, Option.isSome_some]

/-- Lets an address send until a time, or longer if it may already; says whether it is cached. -/
def unrestrict (cache : EndpointCache) (address : Address) (deadline : Micros) : EndpointCache × Bool :=
  match cache.get? address with
  | some entry => (cache.put address { entry with openUntil := max entry.openUntil deadline }, true)
  | none => (cache, false)

/-- Whether an address may send at a time; an address that is not cached may not. -/
def isUnrestricted (cache : EndpointCache) (address : Address) (now : Micros) : EndpointCache × Bool :=
  match cache.get? address with
  | some entry => (cache.put address entry, now < entry.openUntil)
  | none => (cache, false)

end EndpointCache
end OnionCircuit
