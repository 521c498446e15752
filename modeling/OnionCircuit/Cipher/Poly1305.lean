import OnionCircuit.Bytes.Order

/-! The one-time authenticator Poly1305: a polynomial modulo 2¹³⁰ - 5 in the
first half of its key, hidden by adding the second half. -/

namespace OnionCircuit.Cipher.Poly1305

def prime : Nat := 0x3fffffffffffffffffffffffffffffffb

/-- The bits of the evaluation point that a key may set. -/
def clamp : Nat := 0x0ffffffc0ffffffc0ffffffc0fffffff

/-- A block as a coefficient: its bytes with a one after them. -/
def coefficient (block : Bytes) : Nat := Bytes.ofLittle (block ++ [1])

def evaluate (point : Nat) (blocks : List Bytes) : Nat :=
  blocks.foldl (fun sum block => (sum + coefficient block) * point % prime) 0

def tag (key message : Bytes) : Bytes :=
  let point := Bytes.ofLittle (key.take 16) &&& clamp
  let mask := Bytes.ofLittle ((key.drop 16).take 16)
  Bytes.little 16 (evaluate point (Bytes.chunks 16 message) + mask)

@[simp] theorem length_tag (key message : Bytes) : (tag key message).length = 16 := by simp [tag]

end OnionCircuit.Cipher.Poly1305
