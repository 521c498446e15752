import OnionCircuit.Cipher.Aead
import OnionCircuit.Cipher.ChaCha
import OnionCircuit.Cipher.Poly1305

/-! ChaCha20 with Poly1305 under a key of thirty-two bytes and a nonce of twelve.
Block zero keys the authenticator; the text takes the blocks from one on. -/

namespace OnionCircuit.Cipher.ChaChaPoly

def keystream (key nonce : Bytes) (count : Nat) : Bytes :=
  ((List.range ((count + 63) / 64)).flatMap fun index => ChaCha.block key nonce (index + 1)).take count

/-- Associated data and ciphertext, each filled up to whole blocks, then both lengths in bytes. -/
def transcript (associated ciphertext : Bytes) : Bytes :=
  associated ++ Bytes.padding 16 associated ++ ciphertext ++ Bytes.padding 16 ciphertext ++
    Bytes.little 8 associated.length ++ Bytes.little 8 ciphertext.length

def tag (key nonce associated ciphertext : Bytes) : Bytes :=
  Poly1305.tag ((ChaCha.block key nonce 0).take 32) (transcript associated ciphertext)

theorem length_keystream (key nonce : Bytes) (count : Nat) : (keystream key nonce count).length = count := by
  have total (blocks : List Nat) :
      (blocks.flatMap fun index => ChaCha.block key nonce (index + 1)).length = 64 * blocks.length := by
    induction blocks with
    | nil => rfl
    | cons index blocks ih =>
      rw [List.flatMap_cons, List.length_append, ih, ChaCha.length_block, List.length_cons]
      omega
  rw [keystream, List.length_take, total, List.length_range]
  omega

def cipher (key nonce : Bytes) : Aead where
  keystream := keystream key nonce
  tag := tag key nonce
  length_keystream := length_keystream key nonce
  length_tag := fun associated ciphertext => by simp [tag, tagSize]

end OnionCircuit.Cipher.ChaChaPoly
