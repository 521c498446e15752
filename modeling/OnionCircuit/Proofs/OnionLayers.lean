import OnionCircuit.Layer.Onion

/-! Layers of a packet come off in the order in which they lie on it, whatever is below.
A packet for the last hop is only recognised there, unless chance makes what is left of
it on the way look like a packet without layers. -/

namespace OnionCircuit.Onion
open Cipher (tagSize)

theorem length_cover (embryo : Embryo) (packet : Bytes) : (cover embryo packet).length = packet.length + tagSize := by
  simp only [cover, List.length_append, Cipher.Aead.length_encrypt, List.length_take, List.length_drop]
  omega

theorem add_eq {embryo : Embryo} {packet : Bytes} (enough : Header.size ≤ packet.length) :
    add embryo packet = .ok (cover embryo packet) := by
  unfold add
  split
  next short => omega
  next => rfl

theorem remove_cover {embryo : Embryo} {packet : Bytes} (enough : Header.size ≤ packet.length) :
    remove embryo (cover embryo packet) = .ok packet := by
  have front : (packet.take Header.saltSize).length = Header.saltSize := by
    have salted := Header.saltSize_le_size
    rw [List.length_take]
    omega
  unfold remove
  split
  next short =>
    rw [length_cover] at short
    omega
  next =>
    simp only [cover]
    rw [List.take_append_of_le_length (by omega), List.take_of_length_le (by omega),
      List.drop_append_of_le_length (by omega), List.drop_of_length_le (by omega), List.nil_append,
      Cipher.Aead.decrypt?_encrypt]
    simp only [List.take_append_drop]

/-- What comes to light under a layer gives the packet back when it is covered again. -/
theorem add_of_remove {embryo : Embryo} {packet inner : Bytes} (removed : remove embryo packet = .ok inner) :
    add embryo inner = .ok packet := by
  unfold remove at removed
  split at removed
  next => cases removed
  next short =>
    have long := Nat.not_lt.mp short
    have salted := Header.saltSize_le_size
    simp only at removed
    split at removed
    next rest decrypted =>
      cases removed
      have front : (packet.take Header.saltSize).length = Header.saltSize := by
        rw [List.length_take]
        omega
      have covered := Cipher.Aead.encrypt_of_decrypt? decrypted
      have length := congrArg List.length covered
      rw [Cipher.Aead.length_encrypt, List.length_drop] at length
      have enough : Header.size ≤ (packet.take Header.saltSize ++ rest).length := by
        rw [List.length_append]
        omega
      rw [add_eq enough, cover, List.take_left' front, List.drop_left' front, covered, List.take_append_drop]
    next => cases removed

theorem remove_eq_ok_iff {embryo : Embryo} {packet inner : Bytes} :
    remove embryo packet = .ok inner ↔ add embryo inner = .ok packet := by
  refine ⟨add_of_remove, fun adds => ?_⟩
  by_cases short : inner.length < Header.size
  · rw [add, if_pos short] at adds
    cases adds
  · have enough := Nat.not_lt.mp short
    rw [add_eq enough, Except.ok.injEq] at adds
    rw [← adds]
    exact remove_cover enough

theorem add_eq_ok_iff {embryo : Embryo} {packet covered : Bytes} :
    add embryo packet = .ok covered ↔ Header.size ≤ packet.length ∧ covered = cover embryo packet := by
  by_cases short : packet.length < Header.size
  · simp only [add, short, if_true, reduceCtorEq, Nat.not_le.mpr short, false_and]
  · have enough := Nat.not_lt.mp short
    rw [add_eq enough, Except.ok.injEq, and_iff_right enough, eq_comm]

/-- All layers of a packet share its salt. -/
theorem take_cover {embryo : Embryo} {packet : Bytes} (salted : Header.saltSize ≤ packet.length) :
    (cover embryo packet).take Header.saltSize = packet.take Header.saltSize := by
  apply List.take_left'
  rw [List.length_take]
  omega

theorem remove_eq_tooShort_iff {embryo : Embryo} {packet : Bytes} :
    remove embryo packet = .error .tooShort ↔ packet.length < Header.size + tagSize := by
  unfold remove
  split
  next short => exact iff_of_true rfl short
  next long =>
    simp only
    split
    next => exact iff_of_false nofun long
    next => exact iff_of_false nofun long

theorem remove_eq_unauthentic_iff {embryo : Embryo} {packet : Bytes} :
    remove embryo packet = .error .unauthentic ↔
      Header.size + tagSize ≤ packet.length ∧ ∀ inner, add embryo inner ≠ .ok packet := by
  have short : packet.length < Header.size + tagSize ↔ remove embryo packet = .error .tooShort :=
    remove_eq_tooShort_iff.symm
  simp only [← Nat.not_lt, short, ne_eq, ← remove_eq_ok_iff]
  cases remove embryo packet with
  | ok inner =>
    refine iff_of_false nofun ?_
    intro failed
    exact failed.2 inner rfl
  | error error =>
    cases error with
    | tooShort => exact iff_of_false nofun fun failed => failed.1 rfl
    | unauthentic => exact iff_of_true rfl ⟨nofun, nofun⟩

/-- A layer comes off exactly what one was put on, and nothing is lost under it. -/
theorem remove_inverts_add (embryo : Embryo) :
    (∀ packet, (∃ covered, add embryo packet = .ok covered) ↔ 32 ≤ packet.length) ∧
    (∀ packet covered, add embryo packet = .ok covered →
      covered.take 4 = packet.take 4 ∧ covered.length = packet.length + 16 ∧ remove embryo covered = .ok packet) ∧
    (∀ packet inner, remove embryo packet = .ok inner → add embryo inner = .ok packet) ∧
    (∀ packet, remove embryo packet = .error .tooShort ↔ packet.length < 48) ∧
    ∀ packet, remove embryo packet = .error .unauthentic ↔
      48 ≤ packet.length ∧ ∀ inner, add embryo inner ≠ .ok packet := by
  refine ⟨fun packet => ?_, ?_, fun _ _ => add_of_remove, fun _ => remove_eq_tooShort_iff,
    fun _ => remove_eq_unauthentic_iff⟩
  · simp only [add_eq_ok_iff, exists_and_left, exists_eq, and_true]
    exact Iff.rfl
  · intro packet covered adds
    obtain ⟨enough, rfl⟩ := add_eq_ok_iff.mp adds
    exact ⟨take_cover (Nat.le_trans Header.saltSize_le_size enough), length_cover embryo packet, remove_cover enough⟩

theorem remove_inverts_add_zeros :
    let embryo : Embryo := ⟨Octets.zero 32, 7, Octets.zero 16⟩
    ∃ covered, add embryo (Bytes.zeros 32) = .ok covered ∧ covered.length = 48 ∧
      remove embryo covered = .ok (Bytes.zeros 32) ∧ remove embryo (Bytes.zeros 47) = .error .tooShort := by
  intro embryo
  obtain ⟨made, keeps, _, short, _⟩ := remove_inverts_add embryo
  obtain ⟨covered, adds⟩ := (made (Bytes.zeros 32)).mpr (by decide)
  obtain ⟨_, length, removes⟩ := keeps _ covered adds
  exact ⟨covered, adds, length, removes, (short _).mpr (by decide)⟩

section Pack
variable (salt : UInt32) (address : Address) (content : Bytes)

theorem pack_cons (embryo : Embryo) (layers : List Embryo) :
    pack (embryo :: layers) salt address content = cover embryo (pack layers salt address content) := rfl

@[simp] theorem length_pack (layers : List Embryo) :
    (pack layers salt address content).length = Header.size + content.length + tagSize * layers.length := by
  induction layers with
  | nil => simp [pack]
  | cons embryo layers ih =>
    rw [pack_cons, length_cover, ih, List.length_cons, Nat.mul_succ]
    omega

theorem size_le_pack (layers : List Embryo) : Header.size ≤ (pack layers salt address content).length := by
  rw [length_pack]
  omega

theorem salted_pack (layers : List Embryo) : Header.saltSize ≤ (pack layers salt address content).length :=
  Nat.le_trans Header.saltSize_le_size (size_le_pack salt address content layers)

theorem isTerminal_pack_nil : Header.isTerminal (pack [] salt address content) = true := by
  have zero : Bytes.little 4 (0 : UInt32).toNat = Bytes.zeros 4 := rfl
  have enough := size_le_pack salt address content []
  simp only [Header.isTerminal, Bool.and_eq_true, decide_eq_true_eq, beq_iff_eq]
  refine ⟨enough, ?_⟩
  simp only [pack, List.foldr_nil, Header.bytes, Header.terminal, zero, List.append_assoc]
  rw [List.drop_append_of_le_length (by simp), List.drop_of_length_le (by simp), List.nil_append,
    List.take_append_of_le_length (by simp), List.take_of_length_le (by simp)]

theorem parse?_pack_nil : Header.parse? (pack [] salt address content) = some (Header.terminal salt address) :=
  Header.parse?_append _ content

theorem drop_pack_nil : (pack [] salt address content).drop Header.size = content := by
  simp only [pack, List.foldr_nil]
  rw [List.drop_append_of_le_length (by simp), List.drop_of_length_le (by simp), List.nil_append]

/-- Nothing that is left of a packet before its last layer comes off looks like a packet without layers. -/
def Veiled (layers : List Embryo) : Prop :=
  ∀ gone, 0 < gone → gone < layers.length → Header.isTerminal (pack (layers.drop gone) salt address content) = false

variable {salt address content}

theorem Veiled.tail {embryo : Embryo} {layers : List Embryo} (veiled : Veiled salt address content (embryo :: layers)) :
    Veiled salt address content layers := by
  intro gone _ inside
  exact veiled (gone + 1) (by omega) (by simpa using inside)

theorem Veiled.next {embryo next : Embryo} {layers : List Embryo}
    (veiled : Veiled salt address content (embryo :: next :: layers)) :
    Header.isTerminal (pack (next :: layers) salt address content) = false :=
  veiled 1 (by omega) (by simp)

/-- All layers of a veiled packet have to come off before it can be read. -/
theorem peel_pack {layers : List Embryo} (veiled : Veiled salt address content layers) (covered : layers ≠ [])
    (depth : Nat) :
    peel depth layers (pack layers salt address content) =
      .ok ⟨Header.terminal salt address, content, depth + layers.length⟩ := by
  induction layers generalizing depth with
  | nil => contradiction
  | cons embryo layers ih =>
    rw [peel, pack_cons, remove_cover (size_le_pack salt address content layers)]
    cases layers with
    | nil => simp [bind, Except.bind, isTerminal_pack_nil, parse?_pack_nil, drop_pack_nil, pure, Except.pure]
    | cons next layers =>
      have rest := ih veiled.tail (by simp) (depth + 1)
      simp only [bind, Except.bind, veiled.next, Bool.false_eq_true, if_false, rest, List.length_cons]
      rw [Nat.add_assoc, Nat.add_comm 1]

end Pack
end OnionCircuit.Onion
