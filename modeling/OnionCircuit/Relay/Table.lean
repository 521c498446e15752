import OnionCircuit.Relay.Exchange

/-! The exchanges of an agent, found by either of their ids. New ids are the first
random words that are not zero and not in use. -/

namespace OnionCircuit

/-- Away from the client, or towards it. -/
inductive Direction
  | outward
  | inward
deriving DecidableEq

structure ExchangeTable where
  exchanges : List Exchange
deriving DecidableEq

namespace RelayId

/-- The first word that may be a relay id and is accepted, and the words after it. -/
def pick? (accept : RelayId → Bool) : List UInt32 → Option (RelayId × List UInt32)
  | [] => none
  | word :: words => if word ≠ 0 ∧ accept word then some (word, words) else pick? accept words

/-- A random relay id, never zero. -/
def draw? (words : List UInt32) : Option (RelayId × List UInt32) := pick? (fun _ => true) words

end RelayId

namespace ExchangeTable

def empty : ExchangeTable := ⟨[]⟩

def size (table : ExchangeTable) : Nat := table.exchanges.length

def isEmpty (table : ExchangeTable) : Bool := table.exchanges.isEmpty

/-- The exchange that owns an id; inner ids lead outward and outer ids inward. -/
def find? (table : ExchangeTable) (relayId : RelayId) : Option (Exchange × Direction) :=
  match table.exchanges.find? (·.innerId = relayId) with
  | some exchange => some (exchange, .outward)
  | none => (table.exchanges.find? (·.outerId = relayId)).map fun exchange => (exchange, .inward)

def get? (table : ExchangeTable) (relayId : RelayId) : Option Exchange := (table.find? relayId).map Prod.fst

def contains (table : ExchangeTable) (relayId : RelayId) : Bool := (table.find? relayId).isSome

def insert (table : ExchangeTable) (exchange : Exchange) : ExchangeTable := ⟨table.exchanges ++ [exchange]⟩

/-- The table with a newer version of an exchange. -/
def replace (table : ExchangeTable) (exchange : Exchange) : ExchangeTable :=
  ⟨table.exchanges.map fun other => if other.innerId = exchange.innerId then exchange else other⟩

def erase (table : ExchangeTable) (exchange : Exchange) : ExchangeTable :=
  ⟨table.exchanges.filter fun other => other.innerId ≠ exchange.innerId⟩

/-- Two fresh ids, inner before outer, and the words that are left. -/
def freshIds? (table : ExchangeTable) (words : List UInt32) : Option (RelayId × RelayId × List UInt32) := do
  let (inner, words) ← RelayId.pick? (fun word => !table.contains word) words
  let (outer, words) ← RelayId.pick? (fun word => !table.contains word && word ≠ inner) words
  return (inner, outer, words)

/-- Which exchanges are expired; an overflow in any of them spoils the answer. -/
def expired (table : ExchangeTable) (isClosed : LinkRef → Bool) (now : Micros) : Except Fault (List Exchange) :=
  table.exchanges.filterM fun exchange => exchange.isExpired isClosed now

end ExchangeTable
end OnionCircuit
