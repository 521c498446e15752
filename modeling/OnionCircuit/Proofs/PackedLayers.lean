import OnionCircuit.Proofs.ReceivedPackets

/-! A packet from the moment it is packed until it is read. Every layer that comes off leaves the same packet with one layer
less. It is read under the first layer that uncovers a zero, by chance or because it was the last. -/

namespace OnionCircuit.Onion
variable (salt : UInt32) (address : Address) (content : Bytes)

theorem bare_pack_nil : Header.Bare (pack [] salt address content) :=
  (Header.isTerminal_iff.mp (isTerminal_pack_nil salt address content)).2

theorem isTerminal_pack_iff (layers : List Embryo) :
    Header.isTerminal (pack layers salt address content) = true ↔ Header.Bare (pack layers salt address content) := by
  rw [Header.isTerminal_iff, and_iff_right (size_le_pack salt address content layers)]

theorem readSalt?_pack (layers : List Embryo) : Header.readSalt? (pack layers salt address content) = some salt := by
  have front : (pack layers salt address content).take Header.saltSize = Bytes.little 4 salt.toNat := by
    induction layers with
    | nil =>
      simp only [pack, List.foldr_nil, Header.bytes, Header.terminal, List.append_assoc]
      exact List.take_left' (Bytes.length_little 4 _)
    | cons embryo layers ih => rw [pack_cons, take_cover (salted_pack salt address content layers), ih]
  have long := Nat.not_lt.mpr (salted_pack salt address content layers)
  rw [Header.readSalt?, if_neg long, front, Bytes.ofLittle_word]

/-- A packet is what comes of putting its layers on one by one. -/
theorem addAll_pack (layers : List Embryo) :
    addAll layers ((Header.terminal salt address).bytes ++ content) = .ok (pack layers salt address content) := by
  have removed := removeAll_pack layers [] salt address content
  rw [List.append_nil] at removed
  exact removeAll_eq_ok_iff.mp removed

theorem removeAll_take_pack (layers : List Embryo) (gone : Nat) :
    removeAll (layers.take gone) (pack layers salt address content) =
      .ok (pack (layers.drop gone) salt address content) := by
  have removed := removeAll_pack (layers.take gone) (layers.drop gone) salt address content
  rwa [List.take_append_drop] at removed

/-- Some layer uncovers a zero first, at the latest the last one. -/
theorem reveals_pack (more : List Embryo) {layers : List Embryo} (covered : layers ≠ []) :
    ∃ depth, depth ≤ layers.length ∧
      Reveals (layers ++ more) (pack layers salt address content) depth
        (pack (layers.drop depth) salt address content) := by
  induction layers with
  | nil => contradiction
  | cons embryo layers ih =>
    have off : remove embryo (pack (embryo :: layers) salt address content) = .ok (pack layers salt address content) :=
      remove_cover (size_le_pack salt address content layers)
    by_cases bare : Header.Bare (pack layers salt address content)
    · refine ⟨1, Nat.succ_le_succ (Nat.zero_le _), ?_⟩
      exact (reveals_cons_iff off).mpr (Or.inl ⟨rfl, rfl, bare⟩)
    · have deeper : layers ≠ [] := by
        intro last
        apply bare
        rw [last]
        exact bare_pack_nil salt address content
      obtain ⟨depth, inside, reveals⟩ := ih deeper
      refine ⟨depth + 1, Nat.succ_le_succ inside, ?_⟩
      exact (reveals_cons_iff off).mpr (Or.inr ⟨bare, reveals⟩)

/-- With too few layers, and no zero under them, a packet cannot be read. -/
theorem peel_too_few (rest : List Embryo) {layers : List Embryo}
    (veiled : ∀ gone, 1 ≤ gone → gone ≤ layers.length →
      ¬ Header.Bare (pack (layers.drop gone ++ rest) salt address content)) (depth : Nat) :
    peel depth layers (pack (layers ++ rest) salt address content) = .error .unauthentic := by
  induction layers generalizing depth with
  | nil => rfl
  | cons embryo layers ih =>
    have first : Header.isTerminal (pack (layers ++ rest) salt address content) = false := by
      rw [Bool.eq_false_iff, ne_eq, isTerminal_pack_iff]
      exact veiled 1 Nat.le.refl (by simp)
    have later := ih (fun gone some inside => veiled (gone + 1) (by omega) (by simpa using inside)) (depth + 1)
    rw [List.cons_append, pack_cons, peel, remove_cover (size_le_pack salt address content _)]
    simp only [bind, Except.bind, first, Bool.false_eq_true, if_false, later]

variable {salt address content}

/-- Whatever is left of a packet before the depth at which it is read covers something. -/
theorem Reveals.veiled {layers more : List Embryo} {depth : Nat} {inner : Bytes}
    (reveals : Reveals (layers ++ more) (pack layers salt address content) depth inner) (inside : depth ≤ layers.length)
    {fewer : Nat} (some : 1 ≤ fewer) (few : fewer < depth) :
    ¬ Header.Bare (pack (layers.drop fewer) salt address content) := by
  apply reveals.first fewer some few
  rw [List.take_append_of_le_length (by omega)]
  exact removeAll_take_pack salt address content layers fewer

/-- Taking layers off a packet gives back what each of them was put on. Opening it with enough layers stops at the first zero
there is, and with too few of them, where there is none, it fails. -/
theorem unpack_packed {layers : List Embryo} (covered : layers ≠ []) (more : List Embryo) (salt : UInt32)
    (destination : Address) (content : Bytes) :
    let packet (gone : Nat) := pack (layers.drop gone) salt destination content
    (∀ gone ≤ layers.length,
      addAll (layers.drop gone) ((Header.terminal salt destination).bytes ++ content) = .ok (packet gone) ∧
      removeAll (layers.take gone) (packet 0) = .ok (packet gone) ∧
      (packet gone).length = 32 + content.length + 16 * (layers.length - gone) ∧
      Header.readSalt? (packet gone) = some salt) ∧
    (∃ depth opened, 1 ≤ depth ∧ depth ≤ layers.length ∧ Header.Bare (packet depth) ∧
      (∀ fewer, 1 ≤ fewer → fewer < depth → ¬ Header.Bare (packet fewer)) ∧
      unpack (layers ++ more) (packet 0) = .ok opened ∧ opened.depth = depth ∧
      Header.parse? (packet depth) = some opened.header ∧ opened.content = (packet depth).drop 32 ∧
      (depth = layers.length → opened.header = Header.terminal salt destination ∧ opened.content = content)) ∧
    ∀ few < layers.length, (∀ gone, 1 ≤ gone → gone ≤ few → ¬ Header.Bare (packet gone)) →
      unpack (layers.take few) (packet 0) = .error .unauthentic := by
  intro packet
  have sealed : packet 0 = pack layers salt destination content := rfl
  refine ⟨?_, ?_, ?_⟩
  · intro gone _
    refine ⟨addAll_pack salt destination content _, removeAll_take_pack salt destination content layers gone, ?_,
      readSalt?_pack salt destination content _⟩
    rw [length_pack, List.length_drop]
    rfl
  · obtain ⟨depth, inside, reveals⟩ := reveals_pack salt destination content more covered
    have enough : Header.size ≤ (packet depth).length := size_le_pack salt destination content _
    obtain ⟨header, parses⟩ := Option.isSome_iff_exists.mp (Header.parse?_isSome.mpr enough)
    refine ⟨depth, ⟨header, (packet depth).drop 32, depth⟩, reveals.positive, inside, reveals.bare,
      fun fewer some few => reveals.veiled inside some few, ?_, rfl, parses, rfl, ?_⟩
    · rw [unpack, peel_eq_ok_iff]
      exact ⟨depth, packet depth, reveals, parses, rfl, (Nat.zero_add _).symm⟩
    · intro last
      have plain : packet depth = pack [] salt destination content := by
        simp only [packet, last, List.drop_length]
      simp only [plain, parse?_pack_nil, Option.some.injEq] at parses ⊢
      exact ⟨parses.symm, drop_pack_nil salt destination content⟩
  · intro few less veiled
    have split : packet 0 = pack (layers.take few ++ layers.drop few) salt destination content := by
      rw [List.take_append_drop, sealed]
    rw [unpack, split]
    apply peel_too_few
    intro gone some inside
    have fewer : gone ≤ few := Nat.le_trans inside (List.length_take_le _ _)
    have rest : (layers.take few).drop gone ++ layers.drop few = layers.drop gone := by
      rw [← List.drop_append_of_le_length inside, List.take_append_drop]
    rw [rest]
    exact veiled gone some fewer

open Circuit (numberedHop embryos)

/-- Nothing but the last of two layers uncovers a zero here, so the first one alone is too few. -/
theorem unpack_packed_pair :
    let layers := embryos [numberedHop 1, numberedHop 2]
    let destination := Address.ofSocket 0 (Circuit.numberedSocket 9)
    let packet := pack layers 7 destination [4, 0, 5]
    unpack (layers ++ layers) packet = .ok ⟨Header.terminal 7 destination, [4, 0, 5], 2⟩ ∧
      unpack (layers.take 1) packet = .error .unauthentic := by
  intro layers destination packet
  have pair : layers ≠ [] := by decide
  obtain ⟨_, ⟨depth, ⟨header, rest, gone⟩, some, inside, bare, _, opens, counts, _, _, whole⟩, fails⟩ :=
    unpack_packed pair layers 7 destination [4, 0, 5]
  have covered : ¬ Header.Bare (pack (layers.drop 1) 7 destination [4, 0, 5]) := by decide +kernel
  have two : depth = 2 := by
    have less : depth ≤ 2 := inside
    have more : depth ≠ 1 := by
      intro one
      rw [one] at bare
      exact covered bare
    omega
  obtain ⟨terminal, content⟩ := whole two
  refine ⟨?_, fails 1 (by decide) ?_⟩
  · simp only at counts terminal content
    rw [← terminal, ← content, ← two, ← counts]
    exact opens
  · intro gone some few
    obtain rfl : gone = 1 := by omega
    exact covered

end OnionCircuit.Onion
