import OnionCircuit.Net.Socket

/-! Logical addresses of nodes and the endpoints that packets travel between. An
address with a relay id is reached through the relay at its transport address;
the address of all zeros names the relay that reads it. -/

namespace OnionCircuit

/-- Zero means not relayed. -/
abbrev RelayId := UInt32

/-- Where packets are sent: the relay id they carry and the transport address. -/
structure Endpoint where
  relayId : RelayId
  socket : SocketAddress
deriving DecidableEq

structure Address where
  relayId : RelayId
  port : UInt16
  ip : Ipv6
deriving DecidableEq

namespace Endpoint

def text (endpoint : Endpoint) : List Char := Digits.decimal endpoint.relayId.toNat ++ '@' :: endpoint.socket.text

def idField : Digits.Field := ⟨10, none, true, 4294967295⟩

/-- Reads a text; without a relay id the endpoint is not relayed. -/
def parse? (chars : List Char) : Option Endpoint :=
  match idField.read chars with
  | some (id, '@' :: rest) => (SocketAddress.parse? rest).map (Endpoint.mk id.toUInt32)
  | _ => (SocketAddress.parse? chars).map (Endpoint.mk 0)

/-- Without the scope and the flow label of the transport address. -/
def plain (endpoint : Endpoint) : Endpoint := ⟨endpoint.relayId, endpoint.socket.plain⟩

end Endpoint

namespace Address

/-- The relay that reads the address. -/
def relay : Address := ⟨0, 0, Ipv6.unspecified⟩

def isRelay (address : Address) : Bool := address = relay

/-- IPv4 addresses are mapped; scope and flow label are not part of a logical address. -/
def ofSocket (relayId : RelayId) (socket : SocketAddress) : Address := ⟨relayId, socket.port, socket.ip.toIpv6⟩

def ofEndpoint (endpoint : Endpoint) : Address := ofSocket endpoint.relayId endpoint.socket

/-- Mapped IPv4 addresses are unmapped. -/
def socket (address : Address) : SocketAddress := SocketAddress.ofIp (Ip.ofIpv6 address.ip) address.port

def text (address : Address) : List Char :=
  if address.isRelay then "relay".toList
  else if address.relayId = 0 then address.socket.text
  else Digits.decimal address.relayId.toNat ++ '@' :: address.socket.text

/-- Reads a text. -/
def parse? (chars : List Char) : Option Address :=
  if chars = "relay".toList then some relay else (Endpoint.parse? chars).map ofEndpoint

def size : Nat := 24

/-- Relay id, port, two reserved bytes, and the ip. -/
def bytes (address : Address) : Bytes :=
  Bytes.little 4 address.relayId.toNat ++ Bytes.little 2 address.port.toNat ++ Bytes.zeros 2 ++ address.ip.bytes

/-- The reserved bytes and everything after the address are ignored. -/
def ofBytes? (bytes : Bytes) : Option Address := do
  let ip ← Octets.first? 16 (bytes.drop 8)
  return ⟨(Bytes.ofLittle (bytes.take 4)).toUInt32, (Bytes.ofLittle ((bytes.drop 4).take 2)).toUInt16, ip⟩

@[simp] theorem length_bytes (address : Address) : address.bytes.length = size := by simp [bytes, size]

theorem ofBytes?_append (address : Address) (rest : Bytes) : ofBytes? (address.bytes ++ rest) = some address := by
  simp [ofBytes?, bytes, List.drop_append, List.drop_of_length_le, Octets.first?_append, Bytes.ofLittle_word,
    Bytes.ofLittle_halfWord]

theorem ofBytes?_isSome {bytes : Bytes} : (ofBytes? bytes).isSome = true ↔ size ≤ bytes.length := by
  simp only [ofBytes?, bind, pure, Option.isSome_bind, Option.isSome_some, Option.any_true, Octets.first?_isSome,
    List.length_drop, size]
  omega

theorem ofBytes?_take (bytes : Bytes) : ofBytes? (bytes.take size) = ofBytes? bytes := by
  have relayId : (bytes.take size).take 4 = bytes.take 4 := by
    rw [List.take_take]
    rfl
  have port : ((bytes.take size).drop 4).take 2 = (bytes.drop 4).take 2 := by
    rw [List.drop_take, List.take_take]
    rfl
  have ip : ((bytes.take size).drop 8).take 16 = (bytes.drop 8).take 16 := by
    rw [List.drop_take, List.take_take]
    rfl
  simp only [ofBytes?, Octets.first?, relayId, port, ip]

theorem ofSocket_socket (address : Address) : ofSocket address.relayId address.socket = address := by
  simp [ofSocket, socket, SocketAddress.ip_ofIp, SocketAddress.port_ofIp, Ip.toIpv6_ofIpv6]

end Address
end OnionCircuit
