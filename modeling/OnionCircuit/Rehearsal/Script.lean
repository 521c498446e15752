import OnionCircuit.Circuit.Call

/-! What the far end of a link is told to do in a rehearsal. -/

namespace OnionCircuit

/-- Something that happens while an answer is on its way. -/
inductive Interlude
  /-- Circuits are told by their place in the rehearsal. -/
  | closeCircuit (route : Nat)
  | cleanCircuit (route : Nat)
  | closeLink (link : LinkRef)
  | sleep (milliseconds : Nat)
deriving DecidableEq

inductive Reply (α : Type)
  | answer (value : α)
  | undelivered
  /-- No answer comes until the caller gives up. -/
  | hang
deriving DecidableEq

structure Scene (α : Type) where
  during : List Interlude
  reply : Reply α
deriving DecidableEq

/-- How a reply wakes the caller, if it does. -/
def Reply.wake? (wake : Option α → Wake) : Reply α → Option Wake
  | .answer value => some (wake (some value))
  | .undelivered => some (wake none)
  | .hang => none

end OnionCircuit
