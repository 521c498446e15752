import OnionCircuit.Bytes.Basic
import OnionCircuit.Cipher.Substitution

/-! AES with a key of 128 bits, on blocks of four columns of four bytes. Only
enciphering is defined: counter mode never runs the block cipher backwards. -/

namespace OnionCircuit.Cipher.Aes

structure Column where
  first : UInt8
  second : UInt8
  third : UInt8
  fourth : UInt8
deriving DecidableEq, Inhabited

structure Block where
  first : Column
  second : Column
  third : Column
  fourth : Column
deriving DecidableEq, Inhabited

namespace Column

def add (left right : Column) : Column :=
  ⟨left.first ^^^ right.first, left.second ^^^ right.second, left.third ^^^ right.third, left.fourth ^^^ right.fourth⟩

/-- The four bytes of a string that start at an offset, zero beyond its end. -/
def read (bytes : Bytes) (offset : Nat) : Column :=
  ⟨bytes.getD offset 0, bytes.getD (offset + 1) 0, bytes.getD (offset + 2) 0, bytes.getD (offset + 3) 0⟩

def bytes (column : Column) : Bytes := [column.first, column.second, column.third, column.fourth]

/-- The product with 3x³ + x² + x + 2 modulo x⁴ + 1. -/
def mix (column : Column) : Column :=
  let sum := column.first ^^^ column.second ^^^ column.third ^^^ column.fourth
  ⟨column.first ^^^ sum ^^^ double (column.first ^^^ column.second),
   column.second ^^^ sum ^^^ double (column.second ^^^ column.third),
   column.third ^^^ sum ^^^ double (column.third ^^^ column.fourth),
   column.fourth ^^^ sum ^^^ double (column.fourth ^^^ column.first)⟩

end Column

namespace Block

def add (left right : Block) : Block :=
  ⟨left.first.add right.first, left.second.add right.second, left.third.add right.third, left.fourth.add right.fourth⟩

def read (data : Bytes) : Block :=
  ⟨Column.read data 0, Column.read data 4, Column.read data 8, Column.read data 12⟩

def bytes (block : Block) : Bytes :=
  block.first.bytes ++ block.second.bytes ++ block.third.bytes ++ block.fourth.bytes

@[simp] theorem length_bytes (block : Block) : block.bytes.length = 16 := rfl

/-- Every byte is substituted, and row `r` moves `r` columns to the left. -/
def shift (block : Block) : Block :=
  let column (a b c d : Column) : Column :=
    ⟨substitute a.first, substitute b.second, substitute c.third, substitute d.fourth⟩
  ⟨column block.first block.second block.third block.fourth,
   column block.second block.third block.fourth block.first,
   column block.third block.fourth block.first block.second,
   column block.fourth block.first block.second block.third⟩

def mix (block : Block) : Block := ⟨block.first.mix, block.second.mix, block.third.mix, block.fourth.mix⟩

end Block

/-- The round key after `key`, where `constant` is the power of x of its round. -/
def nextKey (key : Block) (constant : UInt8) : Block :=
  let last := key.fourth
  let seed : Column :=
    ⟨substitute last.second ^^^ constant, substitute last.third, substitute last.fourth, substitute last.first⟩
  let first := key.first.add seed
  let second := key.second.add first
  let third := key.third.add second
  ⟨first, second, third, key.fourth.add third⟩

def expand : Nat → Block → UInt8 → List Block
  | 0, _, _ => []
  | rounds + 1, key, constant =>
    let next := nextKey key constant
    next :: expand rounds next (double constant)

/-- The round keys of the ten rounds; the key itself whitens the block before them. -/
def schedule (key : Block) : List Block := expand 10 key 1

/-- The last round does not mix columns. -/
def rounds : List Block → Block → Block
  | [], block => block
  | [key], block => block.shift.add key
  | key :: keys, block => rounds keys (block.shift.mix.add key)

structure Key where
  whitening : Block
  roundKeys : List Block

def Key.ofBytes (bytes : Bytes) : Key :=
  let whitening := Block.read bytes
  ⟨whitening, schedule whitening⟩

def encipher (key : Key) (block : Block) : Block := rounds key.roundKeys (block.add key.whitening)

end OnionCircuit.Cipher.Aes
