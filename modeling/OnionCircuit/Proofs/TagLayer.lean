import Mathlib.Logic.ExistsUnique
import OnionCircuit.Layer.Tag

/-! The layer between two neighbours as a total function on packets that carry a salt.
Both ends of a link agree on it: what one side wraps the other side unwraps, and it
unwraps nothing else. -/

namespace OnionCircuit.Tag
open Cipher (tagSize)

/-- A packet between its relay ids and its tag. -/
def wrapped (key : TagKey) (ids : RelayIds) (packet : Bytes) : Bytes :=
  let salt := packet.take Header.saltSize
  ids.bytes ++ salt ++ (cipher key salt).encrypt ids.bytes (packet.drop Header.saltSize)

theorem wrap_eq_wrapped {key : TagKey} {ids : RelayIds} {packet : Bytes} (salted : Header.saltSize ≤ packet.length) :
    wrap key ids packet = .ok (wrapped key ids packet) := by
  unfold wrap
  split
  next short => omega
  next => rfl

theorem length_wrapped (key : TagKey) (ids : RelayIds) (packet : Bytes) :
    (wrapped key ids packet).length = RelayIds.size + packet.length + tagSize := by
  simp only [wrapped, List.length_append, RelayIds.length_bytes, Cipher.Aead.length_encrypt, List.length_take,
    List.length_drop]
  omega

theorem size_le_wrapped (key : TagKey) (ids : RelayIds) (packet : Bytes) :
    RelayIds.size ≤ (wrapped key ids packet).length := by
  rw [length_wrapped]
  omega

@[simp] theorem ofBytes_wrapped (key : TagKey) (ids : RelayIds) (packet : Bytes) :
    RelayIds.ofBytes (wrapped key ids packet) = ids := by
  simp only [wrapped, List.append_assoc]
  exact RelayIds.ofBytes_append ids _

private theorem take_wrapped (key : TagKey) (ids : RelayIds) (packet : Bytes) :
    (wrapped key ids packet).take RelayIds.size = ids.bytes := by
  simp only [wrapped, List.append_assoc]
  rw [List.take_append_of_le_length (by simp), List.take_of_length_le (by simp)]

private theorem drop_wrapped (key : TagKey) (ids : RelayIds) (packet : Bytes) :
    (wrapped key ids packet).drop RelayIds.size = packet.take Header.saltSize ++
      (cipher key (packet.take Header.saltSize)).encrypt ids.bytes (packet.drop Header.saltSize) := by
  simp only [wrapped, List.append_assoc]
  rw [List.drop_append_of_le_length (by simp), List.drop_of_length_le (by simp), List.nil_append]

/-- The far end of a link reads exactly the packet that was wrapped. -/
theorem unwrap_wrapped {key : TagKey} {ids : RelayIds} {packet : Bytes} (salted : Header.saltSize ≤ packet.length) :
    unwrap key (wrapped key ids packet) = .ok packet := by
  have front : (packet.take Header.saltSize).length = Header.saltSize := by
    rw [List.length_take]
    omega
  unfold unwrap
  split
  next short =>
    rw [length_wrapped] at short
    omega
  next =>
    simp only [take_wrapped, drop_wrapped]
    rw [List.take_append_of_le_length (by omega), List.take_of_length_le (by omega),
      List.drop_append_of_le_length (by omega), List.drop_of_length_le (by omega), List.nil_append,
      Cipher.Aead.decrypt?_encrypt]
    simp only [List.take_append_drop]

/-- What unwraps is the packet inside, wrapped with the ids that the datagram carries. -/
theorem wrap_of_unwrap {key : TagKey} {datagram packet : Bytes} (opened : unwrap key datagram = .ok packet) :
    wrap key (RelayIds.ofBytes datagram) packet = .ok datagram := by
  unfold unwrap at opened
  split at opened
  next => cases opened
  next short =>
    have long := Nat.not_lt.mp short
    simp only at opened
    split at opened
    next rest decrypted =>
      cases opened
      have front : ((datagram.drop RelayIds.size).take Header.saltSize).length = Header.saltSize := by
        rw [List.length_take, List.length_drop]
        omega
      have ids : (RelayIds.ofBytes datagram).bytes = datagram.take RelayIds.size := RelayIds.bytes_ofBytes (by omega)
      have salted : Header.saltSize ≤ ((datagram.drop RelayIds.size).take Header.saltSize ++ rest).length := by
        rw [List.length_append]
        omega
      rw [wrap_eq_wrapped salted, wrapped, List.take_left' front, List.drop_left' front, ids,
        Cipher.Aead.encrypt_of_decrypt? decrypted, List.append_assoc, List.take_append_drop, List.take_append_drop]
    next => cases opened

/-- A datagram unwraps to the packets of which it is what wrapping gives, and to no others. -/
theorem unwrap_eq_ok_iff {key : TagKey} {datagram packet : Bytes} :
    unwrap key datagram = .ok packet ↔ wrap key (RelayIds.ofBytes datagram) packet = .ok datagram := by
  refine ⟨wrap_of_unwrap, fun wraps => ?_⟩
  by_cases short : packet.length < Header.saltSize
  · rw [wrap, if_pos short] at wraps
    cases wraps
  · have salted := Nat.not_lt.mp short
    rw [wrap_eq_wrapped salted, Except.ok.injEq] at wraps
    rw [← wraps]
    exact unwrap_wrapped salted

theorem wrap_eq_ok_iff {key : TagKey} {ids : RelayIds} {packet datagram : Bytes} :
    wrap key ids packet = .ok datagram ↔ Header.saltSize ≤ packet.length ∧ datagram = wrapped key ids packet := by
  by_cases short : packet.length < Header.saltSize
  · simp only [wrap, short, if_true, reduceCtorEq, Nat.not_le.mpr short, false_and]
  · have salted := Nat.not_lt.mp short
    rw [wrap_eq_wrapped salted, Except.ok.injEq, and_iff_right salted, eq_comm]

theorem unwrap_eq_tooShort_iff {key : TagKey} {datagram : Bytes} :
    unwrap key datagram = .error .tooShort ↔ datagram.length < RelayIds.size + Header.saltSize + tagSize := by
  unfold unwrap
  split
  next short => exact iff_of_true rfl short
  next long =>
    simp only
    split
    next => exact iff_of_false nofun long
    next => exact iff_of_false nofun long

/-- The salt of a packet can be read on its way. -/
theorem salt_wrapped {key : TagKey} {ids : RelayIds} {packet : Bytes} (salted : Header.saltSize ≤ packet.length) :
    ((wrapped key ids packet).drop RelayIds.size).take Header.saltSize = packet.take Header.saltSize := by
  have front : (packet.take Header.saltSize).length = Header.saltSize := by
    rw [List.length_take]
    omega
  rw [drop_wrapped, List.take_left' front]

/-- A datagram in its four parts is read exactly with the tag of the other three. -/
theorem unwrap_parts_iff {key : TagKey} {ids salt ciphertext tag packet : Bytes} (front : ids.length = RelayIds.size)
    (salted : salt.length = Header.saltSize) (exact : tag.length = tagSize) :
    unwrap key (ids ++ salt ++ ciphertext ++ tag) = .ok packet ↔
      tag = (cipher key salt).tag ids ciphertext ∧ packet = salt ++ (cipher key salt).conceal ciphertext := by
  have long : ¬ (ids ++ (salt ++ (ciphertext ++ tag))).length < RelayIds.size + Header.saltSize + tagSize := by
    simp only [List.length_append]
    omega
  simp only [unwrap, List.append_assoc, long, if_false, List.drop_left' front, List.take_left' front,
    List.take_left' salted, List.drop_left' salted]
  cases decrypts : (cipher key salt).decrypt? ids (ciphertext ++ tag) with
  | none =>
    have other : tag ≠ (cipher key salt).tag ids ciphertext := by
      intro same
      rw [(Cipher.Aead.decrypt?_append_iff exact).mpr ⟨same, rfl⟩] at decrypts
      cases decrypts
    simp only [reduceCtorEq, other, false_and]
  | some rest =>
    obtain ⟨same, rfl⟩ := (Cipher.Aead.decrypt?_append_iff exact).mp decrypts
    rw [Except.ok.injEq, and_iff_right same, eq_comm]

/-- One end of a link reads exactly what the other end can have made, and gets back what it was made from. Relay ids, salt
and ciphertext leave no choice for the tag. -/
theorem unwrap_inverts_wrap (key : TagKey) :
    (∀ ids packet, (∃ datagram, wrap key ids packet = .ok datagram) ↔ 4 ≤ packet.length) ∧
    (∀ ids packet datagram, wrap key ids packet = .ok datagram →
      datagram.length = 8 + packet.length + 16 ∧ Datagram.readIds datagram = .ok ids ∧
      (datagram.drop 8).take 4 = packet.take 4 ∧ unwrap key datagram = .ok packet) ∧
    (∀ datagram packet, unwrap key datagram = .ok packet →
      ∃ ids, Datagram.readIds datagram = .ok ids ∧ wrap key ids packet = .ok datagram) ∧
    (∀ (ids : Octets 8) (salt : Octets 4) (ciphertext : Bytes),
      ∃! tag : Octets 16, ∃ packet, unwrap key (ids.bytes ++ salt.bytes ++ ciphertext ++ tag.bytes) = .ok packet) ∧
    ∀ datagram, unwrap key datagram = .error .tooShort ↔ datagram.length < 28 := by
  have reads {datagram : Bytes} (long : RelayIds.size ≤ datagram.length) :
      Datagram.readIds datagram = .ok (RelayIds.ofBytes datagram) := if_neg (Nat.not_lt.mpr long)
  refine ⟨fun ids packet => ?_, ?_, ?_, ?_, fun datagram => unwrap_eq_tooShort_iff⟩
  · simp only [wrap_eq_ok_iff, exists_and_left, exists_eq, and_true]
    exact Iff.rfl
  · intro ids packet datagram wraps
    obtain ⟨salted, rfl⟩ := wrap_eq_ok_iff.mp wraps
    have length := length_wrapped key ids packet
    refine ⟨length, ?_, salt_wrapped salted, unwrap_wrapped salted⟩
    rw [reads (by omega), ofBytes_wrapped]
  · intro datagram packet opened
    have wraps := wrap_of_unwrap opened
    obtain ⟨_, same⟩ := wrap_eq_ok_iff.mp wraps
    have length := length_wrapped key (RelayIds.ofBytes datagram) packet
    rw [← same] at length
    exact ⟨RelayIds.ofBytes datagram, reads (by omega), wraps⟩
  · intro ids salt ciphertext
    have accepts (tag : Octets 16) := @unwrap_parts_iff key ids.bytes salt.bytes ciphertext tag.bytes
    refine ⟨⟨(cipher key salt.bytes).tag ids.bytes ciphertext, (cipher key salt.bytes).length_tag _ _⟩, ?_, ?_⟩
    · exact ⟨_, (accepts _ ids.length_bytes salt.length_bytes (Octets.length_bytes _)).mpr ⟨rfl, rfl⟩⟩
    · intro tag opened
      obtain ⟨packet, opened⟩ := opened
      obtain ⟨same, _⟩ := (accepts tag ids.length_bytes salt.length_bytes tag.length_bytes).mp opened
      cases tag
      cases same
      rfl

theorem unwrap_inverts_wrap_octet :
    ∃ datagram, wrap (Octets.zero 32) ⟨3, 4⟩ [7, 0, 0, 0, 5] = .ok datagram ∧ datagram.length = 29 ∧
      unwrap (Octets.zero 32) datagram = .ok [7, 0, 0, 0, 5] := by
  obtain ⟨made, keeps, _⟩ := unwrap_inverts_wrap (Octets.zero 32)
  obtain ⟨datagram, wraps⟩ := (made ⟨3, 4⟩ [7, 0, 0, 0, 5]).mpr (by decide)
  obtain ⟨length, _, _, opens⟩ := keeps _ _ datagram wraps
  exact ⟨datagram, wraps, length, opens⟩

end OnionCircuit.Tag
