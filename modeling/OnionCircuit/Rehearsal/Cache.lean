import OnionCircuit.Rehearsal.World

/-! A cache of endpoints with the directory it asks. -/

namespace OnionCircuit.Rehearsal

structure ResolvingCache where
  cache : EndpointCache
  directory : Directory
  /-- How often the directory was asked. -/
  asked : Nat

namespace ResolvingCache

def start (capacity : Nat) (directory : Directory) : ResolvingCache := ⟨.empty capacity, directory, 0⟩

def lookup (resolving : ResolvingCache) (address : Address) : ResolvingCache × Option Endpoint :=
  let found := resolving.cache.lookup resolving.directory.resolve address
  ({ resolving with cache := found.cache, asked := resolving.asked + if found.asked then 1 else 0 }, found.endpoint)

end ResolvingCache
end OnionCircuit.Rehearsal
