import OnionCircuit.Circuit.Key
import OnionCircuit.Proofs.Journey
import OnionCircuit.Proofs.OnionLayers
import OnionCircuit.Proofs.TagLayer

/-! What a client reads is what the hops of its circuit can have made, and nothing else.
Every layer that comes off was put on with the same key, and the first packet without
layers that comes to light is the one that is read. -/

namespace OnionCircuit

namespace Header

/-- The field that is zero in a packet without layers is zero. -/
def Bare (packet : Bytes) : Prop := (packet.drop 4).take 4 = Bytes.zeros 4

instance (packet : Bytes) : Decidable (Bare packet) := inferInstanceAs (Decidable (_ = _))

theorem isTerminal_iff {packet : Bytes} : isTerminal packet = true ↔ size ≤ packet.length ∧ Bare packet := by
  simp only [isTerminal, Bool.and_eq_true, decide_eq_true_eq, beq_iff_eq, Bare]

theorem bare_iff {packet : Bytes} {header : Header} (enough : size ≤ packet.length) (parses : parse? packet = some header) :
    Bare packet ↔ header.zero = 0 := by
  have exact : ((packet.drop 4).take 4).length = 4 := by
    rw [List.length_take, List.length_drop]
    simp only [size] at enough
    omega
  have small := Bytes.ofLittle_lt ((packet.drop 4).take 4)
  rw [exact] at small
  obtain ⟨_, _, made⟩ := Option.bind_eq_some_iff.mp parses
  cases made
  rw [← UInt32.toNat_inj, UInt32.toNat_ofNat_of_lt' small, UInt32.toNat_zero, Bytes.ofLittle_eq_zero_iff, exact, Bare]

end Header

namespace Onion

def addAll (layers : List Embryo) (packet : Bytes) : Except LayerError Bytes := layers.foldrM add packet

def removeAll (layers : List Embryo) (packet : Bytes) : Except LayerError Bytes :=
  layers.foldlM (fun packet embryo => remove embryo packet) packet

theorem removeAll_cons_iff {embryo : Embryo} {layers : List Embryo} {packet inner : Bytes} :
    removeAll (embryo :: layers) packet = .ok inner ↔
      ∃ next, remove embryo packet = .ok next ∧ removeAll layers next = .ok inner := by
  rw [removeAll, List.foldlM_cons]
  cases remove embryo packet with
  | error short => exact ⟨nofun, nofun⟩
  | ok next => simp only [bind, Except.bind, Except.ok.injEq, exists_eq_left', removeAll]

theorem addAll_cons_iff {embryo : Embryo} {layers : List Embryo} {packet inner : Bytes} :
    addAll (embryo :: layers) inner = .ok packet ↔
      ∃ next, addAll layers inner = .ok next ∧ add embryo next = .ok packet := by
  rw [addAll, List.foldrM_cons]
  cases covered : addAll layers inner with
  | error short =>
    rw [addAll] at covered
    simp only [covered]
    exact ⟨nofun, nofun⟩
  | ok next =>
    rw [addAll] at covered
    simp only [covered, bind, Except.bind, Except.ok.injEq, exists_eq_left']

theorem removeAll_eq_ok_iff {layers : List Embryo} {packet inner : Bytes} :
    removeAll layers packet = .ok inner ↔ addAll layers inner = .ok packet := by
  induction layers generalizing packet with
  | nil =>
    simp only [removeAll, addAll, List.foldlM_nil, List.foldrM_nil, pure, Except.pure, Except.ok.injEq, eq_comm]
  | cons embryo layers ih =>
    simp only [removeAll_cons_iff, addAll_cons_iff, remove_eq_ok_iff, ih, and_comm]

theorem removeAll_pack (layers rest : List Embryo) (salt : UInt32) (address : Address) (content : Bytes) :
    removeAll layers (pack (layers ++ rest) salt address content) = .ok (pack rest salt address content) := by
  induction layers with
  | nil => rfl
  | cons embryo layers ih => exact removeAll_cons_iff.mpr ⟨_, remove_cover (size_le_pack salt address content _), ih⟩

theorem length_of_remove {embryo : Embryo} {packet inner : Bytes} (removed : remove embryo packet = .ok inner) :
    Header.size ≤ inner.length := by
  have covered := add_of_remove removed
  unfold add at covered
  split at covered
  next => cases covered
  next short => exact Nat.not_lt.mp short

theorem length_of_removeAll {layers : List Embryo} {packet inner : Bytes} (some : layers ≠ [])
    (removed : removeAll layers packet = .ok inner) : Header.size ≤ inner.length := by
  induction layers generalizing packet with
  | nil => contradiction
  | cons embryo layers ih =>
    obtain ⟨next, off, rest⟩ := removeAll_cons_iff.mp removed
    cases layers with
    | nil =>
      cases rest
      exact length_of_remove off
    | cons => exact ih (List.cons_ne_nil _ _) rest

/-- A packet that has come to light under some layers, which are the first ones that hide one without layers. -/
structure Reveals (layers : List Embryo) (packet : Bytes) (count : Nat) (inner : Bytes) : Prop where
  positive : 0 < count
  enough : count ≤ layers.length
  removed : removeAll (layers.take count) packet = .ok inner
  bare : Header.Bare inner
  first : ∀ fewer, 0 < fewer → fewer < count → ∀ rest, removeAll (layers.take fewer) packet = .ok rest → ¬ Header.Bare rest

theorem length_of_reveals {layers : List Embryo} {packet inner : Bytes} {count : Nat}
    (reveals : Reveals layers packet count inner) : Header.size ≤ inner.length := by
  refine length_of_removeAll ?_ reveals.removed
  have inside := reveals.enough
  have positive := reveals.positive
  intro none
  rw [List.take_eq_nil_iff] at none
  obtain none | none := none
  · omega
  · rw [none, List.length_nil] at inside
    omega

theorem reveals_cons_iff {embryo : Embryo} {layers : List Embryo} {packet next inner : Bytes} {count : Nat}
    (removed : remove embryo packet = .ok next) : Reveals (embryo :: layers) packet (count + 1) inner ↔
      count = 0 ∧ inner = next ∧ Header.Bare next ∨ ¬ Header.Bare next ∧ Reveals layers next count inner := by
  have off {count : Nat} {inner : Bytes} : removeAll ((embryo :: layers).take (count + 1)) packet = .ok inner ↔
      removeAll (layers.take count) next = .ok inner := by
    rw [List.take_succ_cons, removeAll_cons_iff, removed]
    simp only [Except.ok.injEq, exists_eq_left']
  have none_off {rest : Bytes} : removeAll (layers.take 0) next = .ok rest ↔ rest = next := by
    rw [List.take_zero, removeAll, List.foldlM_nil]
    simp only [pure, Except.pure, Except.ok.injEq, eq_comm]
  constructor
  · rintro ⟨_, enough, off_all, bare, first⟩
    rw [off] at off_all
    obtain rfl | more := Nat.eq_zero_or_pos count
    · obtain rfl := none_off.mp off_all
      exact Or.inl ⟨rfl, rfl, bare⟩
    · refine Or.inr ⟨first 1 Nat.one_pos (by omega) next (off.mpr (none_off.mpr rfl)), more, by simpa using enough, off_all,
        bare, fun fewer some few rest off_few => ?_⟩
      exact first (fewer + 1) (Nat.succ_pos _) (by omega) rest (off.mpr off_few)
  · rintro (⟨rfl, rfl, bare⟩ | ⟨veiled, some, enough, off_all, bare, first⟩)
    · exact ⟨Nat.one_pos, by simp, off.mpr (none_off.mpr rfl), bare, fun fewer some few => by omega⟩
    · refine ⟨Nat.succ_pos _, by simpa using enough, off.mpr off_all, bare, fun fewer positive few rest off_few => ?_⟩
      obtain ⟨fewer, rfl⟩ := Nat.exists_eq_succ_of_ne_zero (Nat.ne_of_gt positive)
      obtain rfl | more := Nat.eq_zero_or_pos fewer
      · obtain rfl := none_off.mp (off.mp off_few)
        exact veiled
      · exact first fewer more (by omega) rest (off.mp off_few)

/-- Layers are taken off up to the first ones that hide a packet without layers. -/
theorem peel_eq_ok_iff {layers : List Embryo} {depth : Nat} {packet : Bytes} {opened : Opened} :
    peel depth layers packet = .ok opened ↔ ∃ count inner, Reveals layers packet count inner ∧
      Header.parse? inner = some opened.header ∧ inner.drop Header.size = opened.content ∧ opened.depth = depth + count := by
  induction layers generalizing depth packet with
  | nil =>
    simp only [peel, reduceCtorEq, false_iff]
    rintro ⟨count, _, reveals, _⟩
    exact absurd reveals.enough (Nat.not_le.mpr reveals.positive)
  | cons embryo layers ih =>
    rw [peel]
    cases removed : remove embryo packet with
    | error short =>
      simp only [bind, Except.bind, reduceCtorEq, false_iff]
      rintro ⟨count, inner, reveals, _⟩
      obtain ⟨count, rfl⟩ := Nat.exists_eq_succ_of_ne_zero (Nat.ne_of_gt reveals.positive)
      obtain ⟨next, first, _⟩ := removeAll_cons_iff.mp reveals.removed
      cases removed.symm.trans first
    | ok next =>
      -- What was under a layer has room for a header, so only the zero tells whether that was the last layer.
      have terminal : Header.isTerminal next = true ↔ Header.Bare next :=
        Header.isTerminal_iff.trans (and_iff_right (length_of_remove removed))
      by_cases bare : Header.Bare next
      · simp only [bind, Except.bind, terminal.mpr bare, if_true]
        constructor
        · intro opens
          cases parses : Header.parse? next with
          | none =>
            rw [parses] at opens
            cases opens
          | some header =>
            rw [parses] at opens
            cases opens
            exact ⟨1, next, (reveals_cons_iff removed).mpr (Or.inl ⟨rfl, rfl, bare⟩), parses, rfl, rfl⟩
        · rintro ⟨count, inner, reveals, parses, content, deep⟩
          obtain ⟨count, rfl⟩ := Nat.exists_eq_succ_of_ne_zero (Nat.ne_of_gt reveals.positive)
          obtain ⟨rfl, rfl, _⟩ | ⟨veiled, _⟩ := (reveals_cons_iff removed).mp reveals
          · simp only [parses, content, pure, Except.pure, ← deep]
          · exact absurd bare veiled
      · have covered : Header.isTerminal next = false := Bool.eq_false_iff.mpr (mt terminal.mp bare)
        simp only [bind, Except.bind, covered, Bool.false_eq_true, if_false, ih]
        constructor
        · rintro ⟨count, inner, reveals, parses, content, deep⟩
          exact ⟨count + 1, inner, (reveals_cons_iff removed).mpr (Or.inr ⟨bare, reveals⟩), parses, content, by omega⟩
        · rintro ⟨count, inner, reveals, parses, content, deep⟩
          obtain ⟨count, rfl⟩ := Nat.exists_eq_succ_of_ne_zero (Nat.ne_of_gt reveals.positive)
          obtain ⟨_, _, same⟩ | ⟨_, reveals⟩ := (reveals_cons_iff removed).mp reveals
          · exact absurd same bare
          · exact ⟨count, inner, reveals, parses, content, by omega⟩

end Onion

/-- Depths are counted down on a circuit that lends us an address. -/
def CircuitKind.signed : CircuitKind → Nat → Int
  | .outgoing, count => count
  | .incoming, count => -count

namespace CircuitKey

/-- A datagram as the hops of a circuit make one: `count` of them cover a packet without layers, and the first hop wraps
it for the client. Nothing that is left on the way looks like a packet without layers. -/
structure Made (key : CircuitKey) (tagKey : TagKey) (datagram : Bytes) (received : Received) (count : Nat)
    (salt : UInt32) (head packet : Bytes) : Prop where
  positive : 0 < count
  enough : count ≤ key.size
  depth : received.depth = key.kind.signed count
  size : head.length = Header.size
  terminal : Header.parse? head = some (Header.terminal salt received.address)
  covered : Onion.addAll (key.layers.take count) (head ++ received.content) = .ok packet
  wrapped : Tag.wrap tagKey (RelayIds.ofBytes datagram) packet = .ok datagram
  veiled : ∀ fewer, 0 < fewer → fewer < count → ∀ rest, Onion.removeAll (key.layers.take fewer) packet = .ok rest →
    ¬ Header.Bare rest

variable {key : CircuitKey} {first : Endpoint} {tagKey : TagKey}

theorem decrypt?_eq_some_peel (starts : key.first = some (first, tagKey)) (few : key.size < 2147483648) {datagram : Bytes}
    {received : Received} : key.decrypt? first datagram = some received ↔
      ∃ packet opened, Tag.unwrap tagKey datagram = .ok packet ∧ Onion.peel 0 key.layers packet = .ok opened ∧
        received = ⟨opened.header.address, key.kind.signed opened.depth, opened.content⟩ := by
  simp only [decrypt?, starts, ne_eq, not_true_eq_false, if_false]
  cases Tag.unwrap tagKey datagram with
  | error error => exact ⟨nofun, nofun⟩
  | ok packet =>
    simp only [Except.toOption, bind, Option.bind, Onion.unpack, Except.ok.injEq, exists_and_left, exists_eq_left']
    cases peeled : Onion.peel 0 key.layers packet with
    | error error =>
      simp only [reduceCtorEq, false_and, exists_false]
    | ok opened =>
      obtain ⟨count, _, reveals, _, _, depth⟩ := Onion.peel_eq_ok_iff.mp peeled
      have shallow : ¬ 2147483648 ≤ opened.depth := by
        have inside := reveals.enough
        simp only [size] at few
        omega
      simp only [shallow, if_false, pure, Option.some.injEq, Except.ok.injEq, exists_eq_left', eq_comm (a := received)]
      cases key.kind <;> rfl

theorem decrypt?_eq_some_made (starts : key.first = some (first, tagKey)) (few : key.size < 2147483648) {datagram : Bytes}
    {received : Received} : key.decrypt? first datagram = some received ↔
      ∃ count salt head packet, Made key tagKey datagram received count salt head packet := by
  rw [decrypt?_eq_some_peel starts few]
  constructor
  · rintro ⟨packet, opened, unwraps, peels, rfl⟩
    obtain ⟨count, inner, reveals, parses, content, depth⟩ := Onion.peel_eq_ok_iff.mp peels
    have long := Onion.length_of_reveals reveals
    have zero := (Header.bare_iff long parses).mp reveals.bare
    rw [Nat.zero_add] at depth
    have whole : inner.take Header.size ++ opened.content = inner := by rw [← content, List.take_append_drop]
    refine ⟨count, opened.header.salt, inner.take Header.size, packet, reveals.positive, reveals.enough, ?_, ?_, ?_, ?_,
      Tag.wrap_of_unwrap unwraps, reveals.first⟩
    · rw [depth]
    · rw [List.length_take, Nat.min_eq_left long]
    · rw [Header.parse?_take, parses, Header.terminal, ← zero]
    · rw [whole, ← Onion.removeAll_eq_ok_iff]
      exact reveals.removed
  · rintro ⟨count, salt, head, packet, positive, enough, depth, whole, terminal, covered, wrapped, veiled⟩
    have front : (head ++ received.content).take Header.size = head := by rw [← whole, List.take_left]
    have parses : Header.parse? (head ++ received.content) = some (Header.terminal salt received.address) := by
      rw [← Header.parse?_take, front, terminal]
    have long : Header.size ≤ (head ++ received.content).length := by
      rw [List.length_append]
      omega
    have bare := (Header.bare_iff long parses).mpr rfl
    have content : (head ++ received.content).drop Header.size = received.content := by rw [← whole, List.drop_left]
    refine ⟨packet, ⟨Header.terminal salt received.address, received.content, count⟩, Tag.unwrap_eq_ok_iff.mpr wrapped,
      Onion.peel_eq_ok_iff.mpr ⟨count, head ++ received.content,
        ⟨positive, enough, Onion.removeAll_eq_ok_iff.mpr covered, bare, veiled⟩, parses, content, by rw [Nat.zero_add]⟩, ?_⟩
    simp only [Header.terminal, ← depth]

/-- A client reads a datagram exactly if it comes from the first hop and the hops can have made it, and then reads what
they made it from. -/
theorem decrypt?_eq_some_iff (starts : key.first = some (first, tagKey)) (few : key.size < 2147483648) (endpoint : Endpoint)
    (datagram : Bytes) :
    (∀ received, key.decrypt? endpoint datagram = some received ↔
      endpoint = first ∧ ∃ count salt head packet, Made key tagKey datagram received count salt head packet) ∧
    (key.decrypt? endpoint datagram = none ↔
      ¬ (endpoint = first ∧ ∃ received count salt head packet, Made key tagKey datagram received count salt head packet)) := by
  have reads (received : Received) : key.decrypt? endpoint datagram = some received ↔
      endpoint = first ∧ ∃ count salt head packet, Made key tagKey datagram received count salt head packet := by
    by_cases same : endpoint = first
    · rw [same, decrypt?_eq_some_made starts few, eq_self, true_and]
    · have other : first ≠ endpoint := fun equal => same equal.symm
      simp only [decrypt?, starts, ne_eq, other, not_false_eq_true, if_true, same, false_and, reduceCtorEq]
  refine ⟨reads, ?_⟩
  rw [Option.eq_none_iff_forall_ne_some]
  simp only [ne_eq, reads, not_and, not_exists]
  exact ⟨fun never same received => never received same, fun never received same => never same received⟩

open Circuit (numberedHop numberedSocket embryos)

theorem decrypt?_eq_some_pair :
    let hops := [numberedHop 1, numberedHop 2]
    let source := Address.ofSocket 0 (numberedSocket 9)
    let datagram := Tag.wrapped (numberedHop 1).key ⟨1, 0⟩ (Onion.pack (embryos hops) 7 source [4, 0, 5])
    (ofHops .incoming hops).decrypt? ⟨1, numberedSocket 1⟩ datagram = some ⟨source, -2, [4, 0, 5]⟩ ∧
    (ofHops .incoming hops).decrypt? ⟨2, numberedSocket 1⟩ datagram = none := by
  intro hops source datagram
  have reads := @decrypt?_eq_some_iff (ofHops .incoming hops) _ _ rfl (by decide)
  have one := Onion.removeAll_pack (embryos [numberedHop 1]) (embryos [numberedHop 2]) 7 source [4, 0, 5]
  have both := Onion.removeAll_pack (embryos hops) [] 7 source [4, 0, 5]
  have covered : Header.isTerminal (Onion.pack (embryos [numberedHop 2]) 7 source [4, 0, 5]) = false := by decide +kernel
  have made : Made (ofHops .incoming hops) (numberedHop 1).key datagram ⟨source, -2, [4, 0, 5]⟩ 2 7
      (Header.terminal 7 source).bytes (Onion.pack (embryos hops) 7 source [4, 0, 5]) := by
    refine ⟨by decide, by decide, rfl, Header.length_bytes _, ?_, Onion.removeAll_eq_ok_iff.mp both, ?_, ?_⟩
    · simpa only [List.append_nil] using Header.parse?_append (Header.terminal 7 source) []
    · rw [Tag.ofBytes_wrapped, Tag.wrap_eq_wrapped (Onion.salted_pack _ _ _ _)]
    · intro fewer some less rest off bare
      obtain rfl : fewer = 1 := by omega
      cases one.symm.trans off
      cases covered.symm.trans (Header.isTerminal_iff.mpr ⟨Onion.size_le_pack _ _ _ _, bare⟩)
  exact ⟨((reads _ datagram).1 _).mpr ⟨rfl, _, _, _, _, made⟩, (reads _ datagram).2.mpr fun made => absurd made.1 (by decide)⟩

end CircuitKey
end OnionCircuit
