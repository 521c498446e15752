import OnionCircuit.Cipher.AesGcm
import OnionCircuit.Layer.Material
import OnionCircuit.Packet.Datagram
import OnionCircuit.Packet.Header

/-! The layer between two neighbours. The relay ids in front are authenticated, the
salt of the packet stays readable and makes the nonce, and the rest is encrypted. -/

namespace OnionCircuit

inductive LayerError
  | tooShort
  | unauthentic
deriving DecidableEq

def LayerError.message : LayerError → String
  | .tooShort => "Ciphertext too short"
  | .unauthentic => "Decryption failed"

namespace Tag
open Cipher (tagSize)

/-- The first twelve bytes of the nonce material, the first four combined with the salt. -/
def nonce (key : TagKey) (salt : Bytes) : Bytes :=
  Bytes.mask (key.nonceMaterial.take 4) salt ++ (key.nonceMaterial.drop 4).take 8

def cipher (key : TagKey) (salt : Bytes) : Cipher.Aead := Cipher.AesGcm.cipher key.cipherKey (nonce key salt)

/-- A packet without room for a salt is refused. -/
def wrap (key : TagKey) (ids : RelayIds) (packet : Bytes) : Except LayerError Bytes :=
  if packet.length < Header.saltSize then .error .tooShort
  else
    let salt := packet.take Header.saltSize
    .ok (ids.bytes ++ salt ++ (cipher key salt).encrypt ids.bytes (packet.drop Header.saltSize))

def unwrap (key : TagKey) (datagram : Bytes) : Except LayerError Bytes :=
  if datagram.length < RelayIds.size + Header.saltSize + tagSize then .error .tooShort
  else
    let packet := datagram.drop RelayIds.size
    let salt := packet.take Header.saltSize
    match (cipher key salt).decrypt? (datagram.take RelayIds.size) (packet.drop Header.saltSize) with
    | some rest => .ok (salt ++ rest)
    | none => .error .unauthentic

end Tag
end OnionCircuit
