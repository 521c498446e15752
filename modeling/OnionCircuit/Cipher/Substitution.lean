/-! The byte substitution of AES: inversion in the field of 256 elements, which
are polynomials over bits modulo x⁸ + x⁴ + x³ + x + 1, then an affine map. -/

namespace OnionCircuit.Cipher

/-- The product with x. -/
def double (value : UInt8) : UInt8 :=
  if value &&& 0x80 = 0 then value <<< 1 else (value <<< 1) ^^^ 0x1b

namespace Substitution

def product : Nat → UInt8 → UInt8 → UInt8
  | 0, _, _ => 0
  | bits + 1, left, right =>
    (if right &&& 1 = 0 then 0 else left) ^^^ product bits (double left) (right >>> 1)

def multiply (left right : UInt8) : UInt8 := product 8 left right

def power (value : UInt8) : Nat → UInt8
  | 0 => 1
  | exponent + 1 => multiply value (power value exponent)

/-- The nonzero elements form a group of order 255, so this is the inverse; zero stays zero. -/
def inverse (value : UInt8) : UInt8 := power value 254

def rotate (value count : UInt8) : UInt8 := (value <<< count) ||| (value >>> (8 - count))

def affine (value : UInt8) : UInt8 :=
  value ^^^ rotate value 1 ^^^ rotate value 2 ^^^ rotate value 3 ^^^ rotate value 4 ^^^ 0x63

def table : Vector UInt8 256 := Vector.ofFn fun index => affine (inverse index.val.toUInt8)

end Substitution

def substitute (value : UInt8) : UInt8 := Substitution.table.get value.toFin

end OnionCircuit.Cipher
