import OnionCircuit.Bytes.Order

/-! The ChaCha20 block function: twenty rounds on a square of sixteen words, ten
of them down the columns and ten along the diagonals. -/

namespace OnionCircuit.Cipher.ChaCha

structure Row where
  first : UInt32
  second : UInt32
  third : UInt32
  fourth : UInt32
deriving DecidableEq, Inhabited

structure Square where
  first : Row
  second : Row
  third : Row
  fourth : Row
deriving DecidableEq, Inhabited

namespace Row

def zip (combine : UInt32 → UInt32 → UInt32) (left right : Row) : Row :=
  ⟨combine left.first right.first, combine left.second right.second,
   combine left.third right.third, combine left.fourth right.fourth⟩

def add : Row → Row → Row := zip (· + ·)

/-- Exclusive or with another row, then a rotation of every word to the left. -/
def stir (count : UInt32) : Row → Row → Row :=
  zip fun left right => let word := left ^^^ right; (word <<< count) ||| (word >>> (32 - count))

/-- The words moved one, two or three places to the left around the row. -/
def turnOnce (row : Row) : Row := ⟨row.second, row.third, row.fourth, row.first⟩
def turnTwice (row : Row) : Row := ⟨row.third, row.fourth, row.first, row.second⟩
def turnThrice (row : Row) : Row := ⟨row.fourth, row.first, row.second, row.third⟩

def word (bytes : Bytes) (offset : Nat) : UInt32 := (Bytes.ofLittle ((bytes.drop offset).take 4)).toUInt32

/-- Four words that start at an offset of a byte string. -/
def read (bytes : Bytes) (offset : Nat) : Row :=
  ⟨word bytes offset, word bytes (offset + 4), word bytes (offset + 8), word bytes (offset + 12)⟩

def bytes (row : Row) : Bytes :=
  Bytes.little 4 row.first.toNat ++ Bytes.little 4 row.second.toNat ++
    Bytes.little 4 row.third.toNat ++ Bytes.little 4 row.fourth.toNat

@[simp] theorem length_bytes (row : Row) : row.bytes.length = 16 := by simp [bytes]

end Row

namespace Square

def add (left right : Square) : Square :=
  ⟨left.first.add right.first, left.second.add right.second, left.third.add right.third, left.fourth.add right.fourth⟩

/-- A quarter round in each of the four columns. -/
def columns (square : Square) : Square :=
  let a := square.first.add square.second
  let d := square.fourth.stir 16 a
  let c := square.third.add d
  let b := square.second.stir 12 c
  let a := a.add b
  let d := d.stir 8 a
  let c := c.add d
  let b := b.stir 7 c
  ⟨a, b, c, d⟩

/-- A quarter round along each diagonal: the rows are turned so that the diagonals stand upright. -/
def diagonals (square : Square) : Square :=
  let turned : Square := ⟨square.first, square.second.turnOnce, square.third.turnTwice, square.fourth.turnThrice⟩
  let mixed := turned.columns
  ⟨mixed.first, mixed.second.turnThrice, mixed.third.turnTwice, mixed.fourth.turnOnce⟩

def doubleRounds : Nat → Square → Square
  | 0, square => square
  | count + 1, square => doubleRounds count square.columns.diagonals

def bytes (square : Square) : Bytes :=
  square.first.bytes ++ square.second.bytes ++ square.third.bytes ++ square.fourth.bytes

@[simp] theorem length_bytes (square : Square) : square.bytes.length = 64 := by simp [bytes]

end Square

/-- The words of "expand 32-byte k", the key, the block counter and the nonce. -/
def start (key nonce : Bytes) (counter : Nat) : Square :=
  ⟨⟨0x61707865, 0x3320646e, 0x79622d32, 0x6b206574⟩, Row.read key 0, Row.read key 16,
   ⟨counter.toUInt32, Row.word nonce 0, Row.word nonce 4, Row.word nonce 8⟩⟩

def block (key nonce : Bytes) (counter : Nat) : Bytes :=
  let square := start key nonce counter
  (square.add (square.doubleRounds 10)).bytes

@[simp] theorem length_block (key nonce : Bytes) (counter : Nat) : (block key nonce counter).length = 64 := by
  simp [block]

end OnionCircuit.Cipher.ChaCha
