import OnionCircuit.Proofs.OutwardDelivery
import OnionCircuit.Proofs.PackedLayers

/-! Which hops a packet has layers for. A depth that the circuit cannot serve is refused before a salt is drawn,
and nothing else is refused. -/

namespace OnionCircuit.CircuitKey
open Circuit (embryos reach numberedHop numberedSocket)

theorem ofHops_nil (kind : CircuitKind) : ofHops kind [] = empty kind := rfl

/-- What is wrong with a depth. Having no hops counts before asking for none, and that before asking for too many. -/
def Refuses (hops : List Hop) (depth : Int32) (error : KeyError) : Prop :=
  (error = .noHops ∧ hops = []) ∨
  (error = .zeroDepth ∧ hops ≠ [] ∧ depth = 0) ∨
  (error = .tooFewHops depth.toInt ∧ hops ≠ [] ∧ depth ≠ 0 ∧ hops.length < depth.toInt.natAbs)

private theorem asked_eq_zero_iff {depth : Int32} : depth.toInt.natAbs = 0 ↔ depth = 0 := by
  rw [Int.natAbs_eq_zero, ← Int32.toInt_inj]
  rfl

private theorem reach_le {hops : List Hop} {depth : Int32} (enough : depth.toInt.natAbs ≤ hops.length) :
    reach depth hops ≤ hops.length := by
  unfold reach
  split
  next => exact enough
  next => exact Nat.le_refl _

section
variable (kind : CircuitKind) {hops : List Hop} {depth : Int32} (destination : Address) (content : Bytes)

private theorem encrypt_zeroDepth (some : hops ≠ []) (salt : UInt32) :
    (ofHops kind hops).encrypt salt 0 destination content = .error .zeroDepth := by
  obtain ⟨first, rest, rfl⟩ := List.exists_cons_of_ne_nil some
  rfl

private theorem encrypt_tooFewHops (some : hops ≠ []) (nonzero : depth ≠ 0) (few : hops.length < depth.toInt.natAbs)
    (salt : UInt32) : (ofHops kind hops).encrypt salt depth destination content = .error (.tooFewHops depth.toInt) := by
  obtain ⟨first, rest, rfl⟩ := List.exists_cons_of_ne_nil some
  have asked : depth.toInt.natAbs ≠ 0 := mt asked_eq_zero_iff.mp nonzero
  have size : (ofHops kind (first :: rest)).size < depth.toInt.natAbs := by
    simpa only [CircuitKey.size, ofHops, List.length_map] using few
  have start : (ofHops kind (first :: rest)).first = Option.some (first.endpoint, first.key) := rfl
  simp only [encrypt, start, if_neg asked, if_pos size]

theorem encrypt_eq_error_iff (salt : UInt32) {error : KeyError} :
    (ofHops kind hops).encrypt salt depth destination content = .error error ↔ Refuses hops depth error := by
  unfold Refuses
  by_cases none : hops = []
  · subst none
    simp [ofHops_nil, empty, encrypt, eq_comm]
  · by_cases zero : depth = 0
    · subst zero
      simp [encrypt_zeroDepth kind destination content none, none, eq_comm]
    · by_cases few : hops.length < depth.toInt.natAbs
      · simp [encrypt_tooFewHops kind destination content none zero few, none, zero, few, eq_comm]
      · obtain ⟨first, start⟩ := Option.isSome_iff_exists.mp (List.isSome_head?.mpr none)
        have asked : 0 < depth.toInt.natAbs := Nat.pos_of_ne_zero (mt asked_eq_zero_iff.mp zero)
        have made := Circuit.encrypt_reaching start kind asked (Nat.not_lt.mp few) salt destination content
        simp [made, none, zero, few]

theorem encryptWith?_eq_error_iff {words rest : List UInt32} {error : KeyError} :
    (ofHops kind hops).encryptWith? depth destination content words = some (.error error, rest) ↔
      rest = words ∧ Refuses hops depth error := by
  rw [← encrypt_eq_error_iff kind destination content (words.headD 0), encryptWith?]
  split
  next other refused =>
    rw [refused]
    simp [eq_comm, and_comm]
  next datagram made =>
    rw [made]
    split <;> simp

theorem encryptWith?_of_ok {salt : UInt32} {datagram : Bytes} (rest : List UInt32)
    (made : (ofHops kind hops).encrypt salt depth destination content = .ok datagram) :
    (ofHops kind hops).encryptWith? depth destination content (salt :: rest) = some (.ok datagram, rest) := by
  simp only [encryptWith?, List.headD_cons, made, List.isEmpty_cons, Bool.false_eq_true, if_false, List.tail_cons]

end

/-- A depth that is refused gets the first objection there is to it and takes no random word. Any other one takes a salt and
reaches exactly so many hops if it is negative, else all of them; the packet has their layers and no others, and the first of
them gets it. -/
theorem encrypts_for_reached (kind : CircuitKind) (hops : List Hop) (depth : Int32) (destination : Address)
    (content : Bytes) :
    let encrypt := (ofHops kind hops).encryptWith? depth destination content
    (∀ words error rest, encrypt words = some (.error error, rest) ↔ rest = words ∧ Refuses hops depth error) ∧
    (hops ≠ [] → depth ≠ 0 → depth.toInt.natAbs ≤ hops.length → ∀ salt rest, ∃ first packet datagram,
      hops.head? = some first ∧
      Onion.addAll (embryos (hops.take (reach depth hops))) ((Header.mk salt 0 destination).bytes ++ content) = .ok packet ∧
      Tag.wrap first.key ⟨0, first.innerId⟩ packet = .ok datagram ∧
      encrypt (salt :: rest) = some (.ok datagram, rest) ∧
      datagram.length = 40 + content.length + 16 * (reach depth hops + 1) ∧
      Datagram.readIds datagram = .ok ⟨0, first.innerId⟩) := by
  intro encrypt
  refine ⟨fun _ _ _ => encryptWith?_eq_error_iff kind destination content, ?_⟩
  intro some nonzero enough salt rest
  obtain ⟨first, start⟩ := Option.isSome_iff_exists.mp (List.isSome_head?.mpr some)
  have asked : 0 < depth.toInt.natAbs := Nat.pos_of_ne_zero (mt asked_eq_zero_iff.mp nonzero)
  have made := Circuit.encrypt_reaching start kind asked enough salt destination content
  have layers : (embryos (hops.take (reach depth hops))).length = reach depth hops := by
    rw [embryos, List.length_map, List.length_take, Nat.min_eq_left (reach_le enough)]
  refine ⟨first, _, _, start, Onion.addAll_pack salt destination content _,
    Tag.wrap_eq_wrapped (Onion.salted_pack salt destination content _),
    encryptWith?_of_ok kind destination content rest made, ?_, ?_⟩
  · rw [Tag.length_wrapped, Onion.length_pack, layers]
    simp only [RelayIds.size, Header.size, Cipher.tagSize]
    omega
  · rw [Datagram.readIds, if_neg (Nat.not_lt.mpr (Tag.size_le_wrapped _ _ _)), Tag.ofBytes_wrapped]

/-- The nearer one of two hops gets a packet of one layer, under the salt that is drawn first. -/
theorem encrypts_for_reached_nearer :
    let destination := Address.ofSocket 0 (numberedSocket 9)
    ∃ packet datagram,
      Onion.addAll (embryos [numberedHop 1]) ((Header.mk 7 0 destination).bytes ++ [1, 0]) = .ok packet ∧
      Tag.wrap (numberedHop 1).key ⟨0, 1⟩ packet = .ok datagram ∧
      (ofHops .outgoing [numberedHop 1, numberedHop 2]).encryptWith? (-1) destination [1, 0] [7, 9] =
        some (.ok datagram, [9]) ∧ datagram.length = 74 := by
  intro destination
  obtain ⟨first, packet, datagram, start, layers, tag, drawn, length, _⟩ :=
    (encrypts_for_reached .outgoing [numberedHop 1, numberedHop 2] (-1) destination [1, 0]).2 (by decide) (by decide)
      (by decide) 7 [9]
  obtain rfl : numberedHop 1 = first := by simpa using start
  exact ⟨packet, datagram, layers, tag, drawn, length⟩

end OnionCircuit.CircuitKey
