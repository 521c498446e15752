import OnionCircuit.Net.Address

/-! The header of a relay packet: a salt that stays readable, a field that is zero
once the last layer is gone, and the address that the packet is for. -/

namespace OnionCircuit

structure Header where
  salt : UInt32
  zero : UInt32
  address : Address
deriving DecidableEq

namespace Header

def size : Nat := 32

def saltSize : Nat := 4

theorem saltSize_le_size : saltSize ≤ size := by decide

/-- The header of a packet without layers. -/
def terminal (salt : UInt32) (address : Address) : Header := ⟨salt, 0, address⟩

def bytes (header : Header) : Bytes :=
  Bytes.little 4 header.salt.toNat ++ Bytes.little 4 header.zero.toNat ++ header.address.bytes

@[simp] theorem length_bytes (header : Header) : header.bytes.length = size := by
  simp [bytes, size, Address.size]

def readSalt? (packet : Bytes) : Option UInt32 :=
  if packet.length < saltSize then none else some (Bytes.ofLittle (packet.take saltSize)).toUInt32

def parse? (packet : Bytes) : Option Header := do
  let address ← Address.ofBytes? (packet.drop 8)
  return ⟨(Bytes.ofLittle (packet.take 4)).toUInt32, (Bytes.ofLittle ((packet.drop 4).take 4)).toUInt32, address⟩

/-- Whether a packet is long enough for a header and carries zero where layers leave noise. -/
def isTerminal (packet : Bytes) : Bool :=
  size ≤ packet.length && (packet.drop 4).take 4 == Bytes.zeros 4

theorem parse?_append (header : Header) (rest : Bytes) : parse? (header.bytes ++ rest) = some header := by
  simp [parse?, bytes, List.drop_append, List.drop_of_length_le, Address.ofBytes?_append, Bytes.ofLittle_word]

theorem parse?_isSome {packet : Bytes} : (parse? packet).isSome = true ↔ size ≤ packet.length := by
  simp only [parse?, bind, pure, Option.isSome_bind, Option.isSome_some, Option.any_true, Address.ofBytes?_isSome,
    List.length_drop, Address.size, size]
  omega

theorem parse?_take (packet : Bytes) : parse? (packet.take size) = parse? packet := by
  have salt : (packet.take size).take 4 = packet.take 4 := by
    rw [List.take_take]
    rfl
  have zero : ((packet.take size).drop 4).take 4 = (packet.drop 4).take 4 := by
    rw [List.drop_take, List.take_take]
    rfl
  have address : (packet.take size).drop 8 = (packet.drop 8).take Address.size := List.drop_take
  rw [parse?, parse?, salt, zero, address, Address.ofBytes?_take]

end Header
end OnionCircuit
