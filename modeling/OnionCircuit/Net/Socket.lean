import OnionCircuit.Net.IpText

/-! Transport addresses. Two IPv6 addresses with different scopes or flow labels
are different; the text shows a scope that is not zero and never a flow label. -/

namespace OnionCircuit

inductive SocketAddress
  | v4 (ip : Ipv4) (port : UInt16)
  | v6 (ip : Ipv6) (port : UInt16) (flow scope : UInt32)
deriving DecidableEq

namespace SocketAddress

def ip : SocketAddress → Ip
  | .v4 ip _ => .v4 ip
  | .v6 ip _ _ _ => .v6 ip

def port : SocketAddress → UInt16
  | .v4 _ port => port
  | .v6 _ port _ _ => port

def ofIp (ip : Ip) (port : UInt16) : SocketAddress :=
  match ip with
  | .v4 ip => .v4 ip port
  | .v6 ip => .v6 ip port 0 0

/-- Without the scope and the flow label. -/
def plain (address : SocketAddress) : SocketAddress := ofIp address.ip address.port

def text : SocketAddress → List Char
  | .v4 ip port => ip.text ++ ':' :: Digits.decimal port.toNat
  | .v6 ip port _ scope =>
    let zone := if scope = 0 then [] else '%' :: Digits.decimal scope.toNat
    '[' :: ip.text ++ zone ++ ']' :: ':' :: Digits.decimal port.toNat

def portField : Digits.Field := ⟨10, none, true, 65535⟩

def scopeField : Digits.Field := ⟨10, none, true, 4294967295⟩

def readPort (chars : List Char) : Option (UInt16 × List Char) := do
  let (value, rest) ← portField.read (← expect ':' chars)
  return (value.toUInt16, rest)

def readScope (chars : List Char) : Option (UInt32 × List Char) := do
  let (value, rest) ← scopeField.read (← expect '%' chars)
  return (value.toUInt32, rest)

def readV4 (chars : List Char) : Option (SocketAddress × List Char) := do
  let (ip, rest) ← Ipv4.read chars
  let (port, rest) ← readPort rest
  return (.v4 ip port, rest)

def readV6 (chars : List Char) : Option (SocketAddress × List Char) := do
  let (ip, rest) ← Ipv6.read (← expect '[' chars)
  let (scope, rest) := (readScope rest).getD (0, rest)
  let (port, rest) ← readPort (← expect ']' rest)
  return (.v6 ip port 0 scope, rest)

/-- The whole text must be an address. -/
def parse? (chars : List Char) : Option SocketAddress :=
  match (readV4 chars).or (readV6 chars) with
  | some (address, []) => some address
  | _ => none

theorem ip_ofIp (ip : Ip) (port : UInt16) : (ofIp ip port).ip = ip := by cases ip <;> rfl

theorem port_ofIp (ip : Ip) (port : UInt16) : (ofIp ip port).port = port := by cases ip <;> rfl

end SocketAddress
end OnionCircuit
