import OnionCircuit.Bytes.Order

/-! Internet addresses of both families. An IPv4 address has a form inside IPv6,
after ten zero bytes and two of all ones, and is recovered from it. -/

namespace OnionCircuit

abbrev Ipv4 := Octets 4
abbrev Ipv6 := Octets 16

inductive Ip
  | v4 (address : Ipv4)
  | v6 (address : Ipv6)
deriving DecidableEq

namespace Ipv6

def unspecified : Ipv6 := Octets.zero 16

def mappedPrefix : Bytes := [0, 0, 0, 0, 0, 0, 0, 0, 0, 0, 255, 255]

def ofIpv4 (address : Ipv4) : Ipv6 := ⟨mappedPrefix ++ address.bytes, by simp [mappedPrefix]⟩

def toIpv4? (address : Ipv6) : Option Ipv4 :=
  if address.bytes.take 12 = mappedPrefix then Octets.ofBytes? 4 (address.bytes.drop 12) else none

theorem toIpv4?_ofIpv4 (address : Ipv4) : (ofIpv4 address).toIpv4? = some address := by
  simp [toIpv4?, ofIpv4, mappedPrefix, Octets.ofBytes?_bytes]

theorem ofIpv4_of_toIpv4? {address : Ipv6} {inner : Ipv4} (mapped : address.toIpv4? = some inner) :
    ofIpv4 inner = address := by
  simp only [toIpv4?] at mapped
  split at mapped
  next front =>
    simp only [Octets.ofBytes?] at mapped
    split at mapped
    next => cases mapped; simp [ofIpv4, ← front]
    next => cases mapped
  next => cases mapped

/-- The eight groups of two bytes. -/
def groups (address : Ipv6) : List Nat := (Bytes.chunks 2 address.bytes).map Bytes.ofBig

/-- Refuses anything but eight groups. -/
def ofGroups? (groups : List Nat) : Option Ipv6 := Octets.ofBytes? 16 (groups.flatMap (Bytes.big 2))

end Ipv6

namespace Ip

/-- The IPv6 form: an IPv4 address is mapped. -/
def toIpv6 : Ip → Ipv6
  | .v4 address => Ipv6.ofIpv4 address
  | .v6 address => address

/-- The IPv4 form of a mapped address; any other address is kept. -/
def ofIpv6 (address : Ipv6) : Ip := (address.toIpv4?.map Ip.v4).getD (.v6 address)

def isUnspecified : Ip → Bool
  | .v4 address => address = Octets.zero 4
  | .v6 address => address = Ipv6.unspecified

theorem toIpv6_ofIpv6 (address : Ipv6) : (ofIpv6 address).toIpv6 = address := by
  unfold ofIpv6
  cases mapped : address.toIpv4? with
  | none => rfl
  | some inner => exact Ipv6.ofIpv4_of_toIpv4? mapped

end Ip
end OnionCircuit
