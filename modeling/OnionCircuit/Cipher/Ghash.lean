import OnionCircuit.Bytes.Order

/-! The universal hash of Galois counter mode: a polynomial in a secret point of
the field of 2¹²⁸ elements, whose coefficients are the blocks of the message.
The first bit of a block is the coefficient of x⁰. -/

namespace OnionCircuit.Cipher.Ghash

structure Element where
  high : UInt64
  low : UInt64
deriving DecidableEq, Inhabited

namespace Element

def zero : Element := ⟨0, 0⟩

def add (left right : Element) : Element := ⟨left.high ^^^ right.high, left.low ^^^ right.low⟩

/-- Multiplies by x and reduces by x¹²⁸ + x⁷ + x² + x + 1. -/
def timesX (value : Element) : Element :=
  let high := value.high >>> 1
  let low := (value.low >>> 1) ||| (value.high <<< 63)
  if value.low &&& 1 = 0 then ⟨high, low⟩ else ⟨high ^^^ 0xe100000000000000, low⟩

/-- The sum of `right · xⁱ` over the set bits of the first `count` bits of `bits`, on top of `sum`. -/
def accumulate : Nat → UInt64 → Element → Element → Element × Element
  | 0, _, right, sum => (right, sum)
  | count + 1, bits, right, sum =>
    accumulate count (bits <<< 1) right.timesX (if bits &&& 0x8000000000000000 = 0 then sum else sum.add right)

def multiply (left right : Element) : Element :=
  let front := accumulate 64 left.high right zero
  (accumulate 64 left.low front.1 front.2).2

/-- Up to sixteen bytes, filled up with zeros. -/
def ofBytes (bytes : Bytes) : Element :=
  let filled := bytes ++ Bytes.zeros (16 - bytes.length)
  ⟨(Bytes.ofBig (filled.take 8)).toUInt64, (Bytes.ofBig ((filled.drop 8).take 8)).toUInt64⟩

def bytes (value : Element) : Bytes := Bytes.big 8 value.high.toNat ++ Bytes.big 8 value.low.toNat

@[simp] theorem length_bytes (value : Element) : value.bytes.length = 16 := by simp [bytes]

end Element

def hash (point : Element) (blocks : List Bytes) : Element :=
  blocks.foldl (fun sum block => (sum.add (Element.ofBytes block)).multiply point) Element.zero

/-- Associated data and ciphertext, each filled up to whole blocks, then both lengths in bits. -/
def blocks (associated ciphertext : Bytes) : List Bytes :=
  Bytes.chunks 16 associated ++ Bytes.chunks 16 ciphertext ++
    [Bytes.big 8 (8 * associated.length) ++ Bytes.big 8 (8 * ciphertext.length)]

end OnionCircuit.Cipher.Ghash
