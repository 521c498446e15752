import OnionCircuit.Bytes.Basic

/-! Authenticated encryption as a keystream and a tag over associated data and
ciphertext. Whatever those two are, decrypting an encrypted text returns the text,
and a text that decrypts is exactly what encrypting the result produces. -/

namespace OnionCircuit.Cipher

def tagSize : Nat := 16

/-- A cipher under one key and one nonce. -/
structure Aead where
  keystream : Nat → Bytes
  tag : (associated ciphertext : Bytes) → Bytes
  length_keystream : ∀ count, (keystream count).length = count
  length_tag : ∀ associated ciphertext, (tag associated ciphertext).length = tagSize

namespace Aead

def conceal (cipher : Aead) (data : Bytes) : Bytes := data.mask (cipher.keystream data.length)

/-- The ciphertext, then the tag. -/
def encrypt (cipher : Aead) (associated plaintext : Bytes) : Bytes :=
  let ciphertext := cipher.conceal plaintext
  ciphertext ++ cipher.tag associated ciphertext

/-- Refuses a text that is shorter than a tag or does not carry the tag of its ciphertext. -/
def decrypt? (cipher : Aead) (associated sealed : Bytes) : Option Bytes :=
  let ciphertext := sealed.take (sealed.length - tagSize)
  if tagSize ≤ sealed.length ∧ sealed.drop (sealed.length - tagSize) = cipher.tag associated ciphertext then
    some (cipher.conceal ciphertext)
  else none

@[simp] theorem length_conceal (cipher : Aead) (data : Bytes) : (cipher.conceal data).length = data.length := by
  simp [conceal, Bytes.length_mask, cipher.length_keystream]

@[simp] theorem conceal_conceal (cipher : Aead) (data : Bytes) : cipher.conceal (cipher.conceal data) = data := by
  have enough : data.length ≤ (cipher.keystream data.length).length := by simp [cipher.length_keystream]
  simp [conceal, Bytes.length_mask enough, Bytes.mask_mask enough]

@[simp] theorem length_encrypt (cipher : Aead) (associated plaintext : Bytes) :
    (cipher.encrypt associated plaintext).length = plaintext.length + tagSize := by
  simp [encrypt, cipher.length_tag]

theorem decrypt?_encrypt (cipher : Aead) (associated plaintext : Bytes) :
    cipher.decrypt? associated (cipher.encrypt associated plaintext) = some plaintext := by
  simp [decrypt?, encrypt, cipher.length_tag]

theorem encrypt_of_decrypt? {cipher : Aead} {associated sealed plaintext : Bytes}
    (opened : cipher.decrypt? associated sealed = some plaintext) : cipher.encrypt associated plaintext = sealed := by
  simp only [decrypt?] at opened
  split at opened
  next valid =>
    cases opened
    rw [encrypt, conceal_conceal, ← valid.2, List.take_append_drop]
  next => cases opened

/-- Whatever a ciphertext is, its own tag is the one with which it decrypts. -/
theorem decrypt?_append_iff {cipher : Aead} {associated ciphertext tag plaintext : Bytes} (exact : tag.length = tagSize) :
    cipher.decrypt? associated (ciphertext ++ tag) = some plaintext ↔
      tag = cipher.tag associated ciphertext ∧ cipher.conceal ciphertext = plaintext := by
  have enough : tagSize ≤ (ciphertext ++ tag).length := by
    rw [List.length_append]
    omega
  have front : (ciphertext ++ tag).length - tagSize = ciphertext.length := by
    rw [List.length_append]
    omega
  simp only [decrypt?, front, List.take_left, List.drop_left, enough, true_and, Option.ite_none_right_eq_some,
    Option.some.injEq]

end Aead
end OnionCircuit.Cipher
