/-! Byte strings, and byte strings of a length fixed by their type. Combining two
byte strings by exclusive or keeps the length of the first where the second is
at least as long, and combining twice gives the first back. -/

namespace OnionCircuit

abbrev Bytes := List UInt8

namespace Bytes

def zeros (count : Nat) : Bytes := List.replicate count 0

/-- The bytes of `data`, each combined with the mask's byte at its place. -/
def mask (data pad : Bytes) : Bytes := data.zipWith (· ^^^ ·) pad

@[simp] theorem length_zeros (count : Nat) : (zeros count).length = count := by simp [zeros]

theorem length_mask {data pad : Bytes} (enough : data.length ≤ pad.length) : (mask data pad).length = data.length := by
  simp [mask, Nat.min_eq_left enough]

theorem mask_mask {data pad : Bytes} (enough : data.length ≤ pad.length) : mask (mask data pad) pad = data := by
  induction data generalizing pad with
  | nil => simp [mask]
  | cons byte data ih =>
    cases pad with
    | nil => simp at enough
    | cons other pad =>
      have rest := @ih pad (by simpa using enough)
      simp only [mask, List.zipWith_cons_cons] at rest ⊢
      rw [rest, UInt8.xor_assoc, UInt8.xor_self, UInt8.xor_zero]

/-- Zeros that fill `data` up to a whole number of blocks. -/
def padding (block : Nat) (data : Bytes) : Bytes := zeros ((block - data.length % block) % block)

/-- The bytes cut into pieces of `size`, the last one possibly shorter. -/
def chunks (size : Nat) (data : Bytes) : List Bytes :=
  if size = 0 ∨ data = [] then [] else data.take size :: chunks size (data.drop size)
termination_by data.length
decreasing_by
  next more =>
    have filled : data.length ≠ 0 := fun empty => more (.inr (List.length_eq_zero_iff.mp empty))
    rw [List.length_drop]
    omega

end Bytes

/-- A byte string of exactly `size` bytes. -/
structure Octets (size : Nat) where
  bytes : Bytes
  length_bytes : bytes.length = size
deriving DecidableEq

attribute [simp] Octets.length_bytes

namespace Octets

def zero (size : Nat) : Octets size := ⟨Bytes.zeros size, Bytes.length_zeros size⟩

instance (size : Nat) : Inhabited (Octets size) := ⟨zero size⟩

def ofBytes? (size : Nat) (bytes : Bytes) : Option (Octets size) :=
  if exact : bytes.length = size then some ⟨bytes, exact⟩ else none

/-- The first `size` bytes, or none of a shorter string. -/
def first? (size : Nat) (bytes : Bytes) : Option (Octets size) := ofBytes? size (bytes.take size)

theorem ofBytes?_bytes {size : Nat} (octets : Octets size) : ofBytes? size octets.bytes = some octets := by
  simp [ofBytes?]

theorem first?_append {size : Nat} (octets : Octets size) (rest : Bytes) :
    first? size (octets.bytes ++ rest) = some octets := by
  have front : (octets.bytes ++ rest).take size = octets.bytes := by
    rw [List.take_append_of_le_length (by simp), List.take_of_length_le (by simp)]
  rw [first?, front, ofBytes?_bytes]

theorem first?_isSome {size : Nat} {bytes : Bytes} : (first? size bytes).isSome = true ↔ size ≤ bytes.length := by
  simp only [first?, ofBytes?, List.length_take]
  split
  next exact => simp; omega
  next short => simp; omega

end Octets
end OnionCircuit
