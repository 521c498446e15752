import OnionCircuit.Cipher.ChaChaPoly
import OnionCircuit.Layer.Tag

/-! The layers of a packet, one for each hop and keyed by the connection to it. A
layer encrypts everything after the salt, so layers nest and all share the salt. -/

namespace OnionCircuit.Onion
open Cipher (tagSize)

def cipher (embryo : Embryo) (salt : Bytes) : Cipher.Aead :=
  Cipher.ChaChaPoly.cipher embryo.key.bytes (salt ++ Bytes.little 8 embryo.salt.toNat)

/-- A packet under one more layer, longer by a tag. -/
def cover (embryo : Embryo) (packet : Bytes) : Bytes :=
  let salt := packet.take Header.saltSize
  salt ++ (cipher embryo salt).encrypt embryo.secret.bytes (packet.drop Header.saltSize)

/-- Only what has room for a header is covered. -/
def add (embryo : Embryo) (packet : Bytes) : Except LayerError Bytes :=
  if packet.length < Header.size then .error .tooShort else .ok (cover embryo packet)

def remove (embryo : Embryo) (packet : Bytes) : Except LayerError Bytes :=
  if packet.length < Header.size + tagSize then .error .tooShort
  else
    let salt := packet.take Header.saltSize
    match (cipher embryo salt).decrypt? embryo.secret.bytes (packet.drop Header.saltSize) with
    | some rest => .ok (salt ++ rest)
    | none => .error .unauthentic

/-- A packet for `destination`; the first layer is the outermost and comes off first. -/
def pack (layers : List Embryo) (salt : UInt32) (destination : Address) (content : Bytes) : Bytes :=
  layers.foldr cover ((Header.terminal salt destination).bytes ++ content)

/-- A packet whose layers are gone; `depth` counts them. -/
structure Opened where
  header : Header
  content : Bytes
  depth : Nat
deriving DecidableEq

/-- Takes layers off until the header below is terminal, `depth` of them being gone already. -/
def peel (depth : Nat) : List Embryo → Bytes → Except LayerError Opened
  | [], _ => .error .unauthentic
  | embryo :: layers, packet => do
    let inner ← remove embryo packet
    if Header.isTerminal inner then
      match Header.parse? inner with
      | some header => return ⟨header, inner.drop Header.size, depth + 1⟩
      | none => throw .tooShort
    else peel (depth + 1) layers inner

def unpack (layers : List Embryo) (packet : Bytes) : Except LayerError Opened := peel 0 layers packet

end OnionCircuit.Onion
