import OnionCircuit.Layer.Material
import OnionCircuit.Net.Address

/-! Secure connections between a client and a hop. Whether a link is closed is not
part of it: operations that care are told, and say which links they close. -/

namespace OnionCircuit

/-- Tells links apart, whatever their ids. -/
abbrev LinkRef := Nat

structure Link where
  ref : LinkRef
  connectionId : UInt64
  /-- Where the packets of the client come from, as the hop sees it. -/
  endpoint : Endpoint
  /-- Where the hop is, as the client knows it. -/
  address : Address
  embryo : Embryo
deriving DecidableEq

end OnionCircuit
