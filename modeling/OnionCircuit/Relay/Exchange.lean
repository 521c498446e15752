import OnionCircuit.Link
import OnionCircuit.Message.Control
import OnionCircuit.Relay.Config

/-! One hop of one circuit as its relay sees it. Packets for the inner id move away
from the client, packets for the outer id towards it. Points pay for packets. -/

namespace OnionCircuit

/-- The next hop and the key of the tag layer to it. -/
structure Binding where
  endpoint : Endpoint
  key : TagKey
deriving DecidableEq

structure Exchange where
  innerId : RelayId
  outerId : RelayId
  link : Link
  innerKey : TagKey
  /-- Nothing as long as this is the outermost hop. -/
  outer : Option Binding
  points : Int64
  retention : Micros
  restrictedInterval : Micros
  allowOpenSesami : Bool
  allowUnknown : Bool
  lastAccess : Micros
  /-- When an unknown packet was last admitted. -/
  lastAdmitted : Micros
deriving DecidableEq

namespace Exchange

def start (innerId outerId : RelayId) (link : Link) (block : AssignBlock) (limits : AgentLimits) (now : Micros) :
    Exchange where
  innerId := innerId
  outerId := outerId
  link := link
  innerKey := block.key
  outer := none
  points := limits.defaultPoints
  retention := limits.relayRetention
  restrictedInterval := limits.restrictedInterval
  allowOpenSesami := block.allowOpenSesami
  allowUnknown := block.allowUnknown
  lastAccess := now
  lastAdmitted := 0

def touch (exchange : Exchange) (now : Micros) : Exchange := { exchange with lastAccess := now }

def bind (exchange : Exchange) (endpoint : Endpoint) (key : TagKey) : Exchange :=
  { exchange with outer := some ⟨endpoint, key⟩ }

/-- Adds points up to a maximum; the second part is what was added. -/
def credit (exchange : Exchange) (points maxPoints : Int64) : Except Fault (Exchange × Int64) := do
  let room ← Checked.sub maxPoints exchange.points
  let credited := max (min points room) 0
  let total ← Checked.add exchange.points credited
  return ({ exchange with points := total }, credited)

/-- The exchange after paying for one packet, or nothing if it has no point left. -/
def spend? (exchange : Exchange) (now : Micros) : Option Exchange :=
  if exchange.points ≤ 0 then none
  else some { exchange with points := exchange.points - 1, lastAccess := now }

/-- The exchange after admitting an unknown packet, or nothing if it may not admit one now. -/
def admitUnknown? (exchange : Exchange) (now : Micros) : Except Fault (Option Exchange) :=
  if exchange.allowUnknown then do
    let passed ← Checked.sub now exchange.lastAdmitted
    if passed < exchange.restrictedInterval then return none
    return some { exchange with lastAdmitted := now }
  else .ok none

/-- Whether the link is closed or the exchange was idle for too long. -/
def isExpired (exchange : Exchange) (isClosed : LinkRef → Bool) (now : Micros) : Except Fault Bool :=
  if isClosed exchange.link.ref then .ok true
  else do
    let idle ← Checked.sub now exchange.lastAccess
    return exchange.retention < idle

end Exchange
end OnionCircuit
