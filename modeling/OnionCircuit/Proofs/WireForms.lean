import OnionCircuit.Proofs.AddressText
import OnionCircuit.Proofs.ReceivedPackets

/-! Headers and addresses as bytes. Whatever is long enough can be read, and writing what was read gives the same bytes with
the reserved ones blank. Endpoints that differ in the family of an ip, in scope or in flow label can share an address. -/

namespace OnionCircuit

namespace Bytes

/-- The bytes with zeros in two places. -/
def blankPair (place : Nat) (bytes : Bytes) : Bytes := (bytes.set place 0).set (place + 1) 0

theorem blankPair_append {front : Bytes} {place : Nat} (long : front.length ≤ place) (rest : Bytes) :
    blankPair place (front ++ rest) = front ++ blankPair (place - front.length) rest := by
  have next : place + 1 - front.length = place - front.length + 1 := by omega
  rw [blankPair, List.set_append_right _ _ long, List.set_append_right _ _ (by omega), next, blankPair]

theorem blankPair_zero {pair : Bytes} (two : pair.length = 2) (rest : Bytes) :
    blankPair 0 (pair ++ rest) = zeros 2 ++ rest := by
  match pair, two with
  | [_, _], _ => rfl

theorem length_slice {bytes : Bytes} {place count : Nat} (enough : place + count ≤ bytes.length) :
    ((bytes.drop place).take count).length = count := by
  rw [List.length_take, List.length_drop]
  omega

end Bytes

namespace Address

theorem bytes_injective {one other : Address} (same : one.bytes = other.bytes) : one = other := by
  have back := ofBytes?_append one []
  rw [same, ofBytes?_append, Option.some.injEq] at back
  exact back.symm

/-- The pieces that an address is read from. -/
theorem bytes_of_ofBytes? {bytes : Bytes} {address : Address} (reads : ofBytes? bytes = some address) :
    address.bytes = bytes.take 4 ++ (bytes.drop 4).take 2 ++ Bytes.zeros 2 ++ (bytes.drop 8).take 16 := by
  have enough : size ≤ bytes.length := ofBytes?_isSome.mp (Option.isSome_iff_exists.mpr ⟨address, reads⟩)
  simp only [size] at enough
  obtain ⟨ip, first, same⟩ := Option.bind_eq_some_iff.mp reads
  cases same
  have last : ip.bytes = (bytes.drop 8).take 16 := by
    rw [Octets.first?, Octets.ofBytes?] at first
    split at first
    next => cases first; rfl
    next => cases first
  rw [Address.bytes, last, Bytes.little_word (List.length_take_of_le (by omega)),
    Bytes.little_halfWord (Bytes.length_slice (by omega))]

theorem blank_of_ofBytes? {bytes : Bytes} {address : Address} (reads : ofBytes? bytes = some address) :
    address.bytes = Bytes.blankPair 6 (bytes.take size) := by
  have enough : size ≤ bytes.length := ofBytes?_isSome.mp (Option.isSome_iff_exists.mpr ⟨address, reads⟩)
  simp only [size] at enough
  have pieces : bytes.take size =
      (bytes.take 4 ++ (bytes.drop 4).take 2) ++ ((bytes.drop 6).take 2 ++ (bytes.drop 8).take 16) := by
    have last : bytes.drop 8 = (bytes.drop 6).drop 2 := by rw [List.drop_drop]
    rw [← List.take_add, last, ← List.take_add, ← List.take_add]
    rfl
  have front : (bytes.take 4 ++ (bytes.drop 4).take 2).length = 6 := by
    rw [List.length_append, List.length_take_of_le (by omega), Bytes.length_slice (by omega)]
  rw [bytes_of_ofBytes? reads, pieces, Bytes.blankPair_append (Nat.le_of_eq front), front,
    Bytes.blankPair_zero (Bytes.length_slice (by omega)), List.append_assoc _ (Bytes.zeros 2)]

theorem isRelay_ofBytes? {bytes : Bytes} {address : Address} (reads : ofBytes? bytes = some address) :
    address.isRelay = true ↔
      bytes.take 4 = Bytes.zeros 4 ∧ (bytes.drop 4).take 2 = Bytes.zeros 2 ∧ (bytes.drop 8).take 16 = Bytes.zeros 16 := by
  have enough : size ≤ bytes.length := ofBytes?_isSome.mp (Option.isSome_iff_exists.mpr ⟨address, reads⟩)
  simp only [size] at enough
  have zeros : relay.bytes = Bytes.zeros 4 ++ Bytes.zeros 2 ++ Bytes.zeros 2 ++ Bytes.zeros 16 := rfl
  have same : address = relay ↔ address.bytes = relay.bytes := ⟨congrArg _, bytes_injective⟩
  rw [isRelay_iff, same, zeros, bytes_of_ofBytes? reads]
  constructor
  · intro all
    obtain ⟨front, ip⟩ := List.append_inj' all (Bytes.length_slice (by omega))
    obtain ⟨front, _⟩ := List.append_inj' front rfl
    obtain ⟨relayId, port⟩ := List.append_inj' front (Bytes.length_slice (by omega))
    exact ⟨relayId, port, ip⟩
  · rintro ⟨relayId, port, ip⟩
    rw [relayId, port, ip]

theorem ofEndpoint_eq_iff {one other : Endpoint} :
    ofEndpoint one = ofEndpoint other ↔ one.relayId = other.relayId ∧ one.socket.port = other.socket.port ∧
      one.socket.ip.toIpv6 = other.socket.ip.toIpv6 := by
  simp only [ofEndpoint, ofSocket, Address.mk.injEq]

end Address

namespace Header

theorem blank_of_parse? {packet : Bytes} {header : Header} (parses : parse? packet = some header) :
    header.bytes = Bytes.blankPair 14 (packet.take size) := by
  have enough : size ≤ packet.length := parse?_isSome.mp (Option.isSome_iff_exists.mpr ⟨header, parses⟩)
  simp only [size] at enough
  obtain ⟨address, reads, same⟩ := Option.bind_eq_some_iff.mp parses
  cases same
  have pieces : packet.take size = (packet.take 4 ++ (packet.drop 4).take 4) ++ (packet.drop 8).take Address.size := by
    rw [← List.take_add, ← List.take_add]
    rfl
  have front : (packet.take 4 ++ (packet.drop 4).take 4).length = 8 := by
    rw [List.length_append, List.length_take_of_le (by omega), Bytes.length_slice (by omega)]
  rw [pieces, Bytes.blankPair_append (by omega), front, ← Address.blank_of_ofBytes? reads, Header.bytes,
    Bytes.little_word (List.length_take_of_le (by omega)), Bytes.little_word (Bytes.length_slice (by omega))]

theorem isTerminal_iff_parse? {packet : Bytes} :
    isTerminal packet = true ↔ ∃ header, parse? packet = some header ∧ header.zero = 0 := by
  rw [isTerminal_iff]
  constructor
  · rintro ⟨enough, bare⟩
    obtain ⟨header, parses⟩ := Option.isSome_iff_exists.mp (parse?_isSome.mpr enough)
    exact ⟨header, parses, (bare_iff enough parses).mp bare⟩
  · rintro ⟨header, parses, zero⟩
    have enough : size ≤ packet.length := parse?_isSome.mp (Option.isSome_iff_exists.mpr ⟨header, parses⟩)
    exact ⟨enough, (bare_iff enough parses).mpr zero⟩

/-- A header and an address are read back from what they are written as, whatever follows, and everything long enough is read.
Only the reserved bytes of what was read get lost. An address is that of its transport address, and of every endpoint with the
same relay id, port and ip, in whichever form the ip is. -/
theorem wire_forms :
    (∀ header content, parse? (header.bytes ++ content) = some header) ∧
    (∀ packet, ((parse? packet).isSome = true ↔ 32 ≤ packet.length) ∧
      (isTerminal packet = true ↔ ∃ header, parse? packet = some header ∧ header.zero = 0) ∧
      ∀ header, parse? packet = some header → header.bytes = ((packet.take 32).set 14 0).set 15 0) ∧
    (∀ address rest, Address.ofBytes? (address.bytes ++ rest) = some address) ∧
    (∀ bytes, ((Address.ofBytes? bytes).isSome = true ↔ 24 ≤ bytes.length) ∧
      ∀ address, Address.ofBytes? bytes = some address →
        address.bytes = ((bytes.take 24).set 6 0).set 7 0 ∧
        (address.isRelay = true ↔ bytes.take 4 = Bytes.zeros 4 ∧ (bytes.drop 4).take 2 = Bytes.zeros 2 ∧
          (bytes.drop 8).take 16 = Bytes.zeros 16)) ∧
    (∀ address : Address, Address.ofSocket address.relayId address.socket = address) ∧
    (∀ one other : Endpoint, Address.ofEndpoint one = Address.ofEndpoint other ↔
      one.relayId = other.relayId ∧ one.socket.port = other.socket.port ∧
        one.socket.ip.toIpv6 = other.socket.ip.toIpv6) := by
  refine ⟨parse?_append, ?_, Address.ofBytes?_append, ?_, Address.ofSocket_socket, fun _ _ => Address.ofEndpoint_eq_iff⟩
  · intro packet
    exact ⟨parse?_isSome, isTerminal_iff_parse?, fun header parses => blank_of_parse? parses⟩
  · intro bytes
    refine ⟨Address.ofBytes?_isSome, fun address reads => ?_⟩
    exact ⟨Address.blank_of_ofBytes? reads, Address.isRelay_ofBytes? reads⟩

/-- Reserved bytes that are not zero do not count, and are lost. -/
theorem wire_forms_reserved :
    let reserved := Bytes.zeros 6 ++ [1, 2] ++ Bytes.zeros 16
    let packet := [7, 0, 0, 0, 0, 0, 0, 0] ++ reserved ++ [9]
    (∃ header, parse? packet = some header ∧ header.bytes = [7] ++ Bytes.zeros 31) ∧
      ∃ address, Address.ofBytes? reserved = some address ∧ address.isRelay = true := by
  intro reserved packet
  obtain ⟨_, packets, _, addresses, _⟩ := wire_forms
  obtain ⟨header, parses⟩ := Option.isSome_iff_exists.mp ((packets packet).1.mpr (by decide))
  obtain ⟨address, reads⟩ := Option.isSome_iff_exists.mp ((addresses reserved).1.mpr (by decide))
  exact ⟨⟨header, parses, (packets packet).2.2 header parses⟩,
    address, reads, ((addresses reserved).2 address reads).2.mpr (by decide)⟩

end Header
end OnionCircuit
