import OnionCircuit.Bytes.Hex
import OnionCircuit.Bytes.Order
import OnionCircuit.Text.Digits

/-! The secrets that layers are made with. Both ends of a connection hold the same
embryo; a hop and its client share a tag key. Their printed forms hide them. -/

namespace OnionCircuit

/-- A cipher key of sixteen bytes, then nonce material of which twelve are used. -/
abbrev TagKey := Octets 32

namespace TagKey

def cipherKey (key : TagKey) : Bytes := key.bytes.take 16

def nonceMaterial (key : TagKey) : Bytes := key.bytes.drop 16

/-- Shows the first two bytes only. -/
def text (key : TagKey) : String := s!"KeyAndNonce({String.ofList (Hex.text (key.bytes.take 2))}..)"

/-- A key from eight random words, and the words that are left. -/
def draw? (words : List UInt32) : Option (TagKey × List UInt32) := do
  let key ← Octets.ofBytes? 32 ((words.take 8).flatMap fun word => Bytes.little 4 word.toNat)
  return (key, words.drop 8)

end TagKey

/-- The material that a connection derives for its onion layer. -/
structure Embryo where
  key : Octets 32
  salt : UInt64
  secret : Octets 16
deriving DecidableEq

def Embryo.text (embryo : Embryo) : String :=
  s!"EmbryoMaterial \x7b salt: {String.ofList (Digits.decimal embryo.salt.toNat)}, .. \x7d"

end OnionCircuit
