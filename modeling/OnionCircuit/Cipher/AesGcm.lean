import OnionCircuit.Cipher.Aead
import OnionCircuit.Cipher.Aes
import OnionCircuit.Cipher.Ghash

/-! AES-128 in Galois counter mode with a nonce of twelve bytes. Counter one hides
the tag; the text takes the counters from two on. -/

namespace OnionCircuit.Cipher.AesGcm
open Aes (Block)

def counterBlock (key : Aes.Key) (nonce : Bytes) (counter : Nat) : Bytes :=
  (Aes.encipher key (Block.read (nonce.take 12 ++ Bytes.big 4 counter))).bytes

def keystream (key : Aes.Key) (nonce : Bytes) (count : Nat) : Bytes :=
  ((List.range ((count + 15) / 16)).flatMap fun index => counterBlock key nonce (index + 2)).take count

def tag (key : Aes.Key) (nonce associated ciphertext : Bytes) : Bytes :=
  let point := Ghash.Element.ofBytes (Aes.encipher key (Block.read [])).bytes
  (Ghash.hash point (Ghash.blocks associated ciphertext)).bytes.mask (counterBlock key nonce 1)

@[simp] theorem length_counterBlock (key : Aes.Key) (nonce : Bytes) (counter : Nat) :
    (counterBlock key nonce counter).length = 16 := by simp [counterBlock]

theorem length_keystream (key : Aes.Key) (nonce : Bytes) (count : Nat) : (keystream key nonce count).length = count := by
  have total (blocks : List Nat) :
      (blocks.flatMap fun index => counterBlock key nonce (index + 2)).length = 16 * blocks.length := by
    induction blocks with
    | nil => rfl
    | cons index blocks ih =>
      rw [List.flatMap_cons, List.length_append, ih, length_counterBlock, List.length_cons]
      omega
  rw [keystream, List.length_take, total, List.length_range]
  omega

theorem length_tag (key : Aes.Key) (nonce associated ciphertext : Bytes) :
    (tag key nonce associated ciphertext).length = tagSize := by
  rw [tag, Bytes.length_mask (by simp)]
  simp [tagSize]

def cipher (key nonce : Bytes) : Aead :=
  let expanded := Aes.Key.ofBytes key
  { keystream := keystream expanded nonce
    tag := tag expanded nonce
    length_keystream := length_keystream expanded nonce
    length_tag := length_tag expanded nonce }

end OnionCircuit.Cipher.AesGcm
