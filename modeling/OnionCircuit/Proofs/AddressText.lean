import OnionCircuit.Proofs.DigitReading
import OnionCircuit.Settings.Basic

/-! Addresses are read back from their texts, so no two of them have the same text. An IPv6 address is written with its
longest run of zero groups left out; what is left tells how many there were. -/

namespace OnionCircuit

theorem expect_cons (char : Char) (rest : List Char) : expect char (char :: rest) = some rest := if_pos rfl

theorem expect_other {char other : Char} (differs : other ≠ char) (rest : List Char) :
    expect char (other :: rest) = none := if_neg differs

namespace Ipv4

theorem read_octet (byte : UInt8) {rest : List Char} (stops : Digits.Stops 10 rest) :
    octet.read (Digits.decimal byte.toNat ++ rest) = some (byte.toNat, rest) := by
  have small := byte.toNat_lt
  refine @Digits.Field.read_text octet (by decide) (by decide) byte.toNat ?_ ?_ rest stops
  · simp only [octet]
    omega
  · intro longest bound
    cases bound
    exact ⟨by decide, Nat.lt_trans small (by decide)⟩

theorem readOctets_text (bytes : Bytes) {rest : List Char} (stops : Digits.Stops 10 rest) :
    readOctets bytes.length (joinWith '.' (bytes.map fun byte => Digits.decimal byte.toNat) ++ rest) =
      some (bytes, rest) := by
  induction bytes with
  | nil => rfl
  | cons byte bytes ih =>
    cases bytes with
    | nil =>
      simp only [List.length_cons, List.length_nil, List.map_cons, List.map_nil, joinWith, Nat.zero_add, readOctets,
        read_octet byte stops]
      simp
    | cons next bytes =>
      have dot : Digits.Stops 10
          ('.' :: (joinWith '.' ((next :: bytes).map fun byte => Digits.decimal byte.toNat) ++ rest)) :=
        Digits.stops_cons rfl
      have tail := ih
      simp only [List.length_cons, List.map_cons, joinWith, readOctets, List.append_assoc, List.cons_append] at tail dot ⊢
      simp only [read_octet byte dot, expect_cons, tail, bind, Option.bind, pure]
      simp

theorem read_text (address : Ipv4) {rest : List Char} (stops : Digits.Stops 10 rest) :
    read (address.text ++ rest) = some (address, rest) := by
  have octets := readOctets_text address.bytes stops
  rw [address.length_bytes] at octets
  simp only [read, text, octets, bind, Option.bind, Octets.ofBytes?_bytes]
  rfl

/-- An IPv4 address needs a dot after its first digits. -/
theorem read_eq_none {chars : List Char} (undotted : (Digits.split 10 chars).2.head? ≠ some '.') :
    read chars = none := by
  have first {value : Nat} {rest : List Char} (taken : octet.read chars = some (value, rest)) :
      rest = (Digits.split 10 chars).2 := by
    simp only [Digits.Field.read] at taken
    split at taken
    next => cases taken
    next =>
      split at taken
      next => cases taken
      next =>
        split at taken
        next => cases taken
        next => cases taken; rfl
  have dotless : readOctets 4 chars = none := by
    cases taken : octet.read chars with
    | none => simp only [readOctets, taken, bind, Option.bind]
    | some result =>
      obtain ⟨value, rest⟩ := result
      have after := first taken
      have refused : expect '.' rest = none := by
        cases rest with
        | nil => rfl
        | cons char rest =>
          apply expect_other
          rintro rfl
          rw [← after] at undotted
          exact undotted rfl
      simp only [readOctets, taken, refused, bind, Option.bind]
  simp [read, dotless]

end Ipv4

/-- Cutting whole pieces loses nothing. -/
theorem Bytes.chunks_whole {size : Nat} (positive : size ≠ 0) (count : Nat) {data : Bytes}
    (whole : data.length = size * count) :
    (chunks size data).length = count ∧ (chunks size data).flatten = data ∧
      ∀ chunk ∈ chunks size data, chunk.length = size := by
  induction count generalizing data with
  | zero =>
    have empty : data = [] := List.length_eq_zero_iff.mp whole
    rw [chunks, if_pos (Or.inr empty), empty]
    simp
  | succ count ih =>
    have long : size ≤ data.length := by
      rw [whole]
      exact Nat.le_mul_of_pos_right size (Nat.succ_pos count)
    have filled : data ≠ [] := by
      rintro rfl
      exact positive (Nat.le_zero.mp long)
    have rest : (data.drop size).length = size * count := by
      rw [List.length_drop, whole, Nat.mul_succ, Nat.add_sub_cancel]
    obtain ⟨number, flat, lengths⟩ := ih rest
    rw [chunks, if_neg (not_or.mpr ⟨positive, filled⟩)]
    refine ⟨?_, ?_, ?_⟩
    · rw [List.length_cons, number]
    · rw [List.flatten_cons, flat, List.take_append_drop]
    · exact List.forall_mem_cons.mpr ⟨List.length_take_of_le long, lengths⟩

namespace Ipv6

theorem length_groups (address : Ipv6) : address.groups.length = 8 := by
  rw [groups, List.length_map]
  exact (@Bytes.chunks_whole 2 (by decide) 8 _ address.length_bytes).1

theorem groups_lt (address : Ipv6) : ∀ group ∈ address.groups, group < 65536 := by
  intro group inside
  obtain ⟨chunk, member, rfl⟩ := List.mem_map.mp inside
  have two := (@Bytes.chunks_whole 2 (by decide) 8 _ address.length_bytes).2.2 chunk member
  have small := Bytes.ofLittle_lt chunk.reverse
  rwa [List.length_reverse, two] at small

theorem ofGroups?_groups (address : Ipv6) : ofGroups? address.groups = some address := by
  obtain ⟨_, flat, lengths⟩ := @Bytes.chunks_whole 2 (by decide) 8 _ address.length_bytes
  have kept : ∀ chunk ∈ Bytes.chunks 2 address.bytes, Bytes.big 2 (Bytes.ofBig chunk) = chunk := by
    intro chunk member
    have same := Bytes.big_ofBig chunk
    rwa [lengths chunk member] at same
  rw [ofGroups?, groups, List.flatMap_map, List.flatMap_def, List.map_congr_left kept, List.map_id', flat,
    Octets.ofBytes?_bytes]

/-- Where the run is, all groups are zero. -/
def Run.Covers (run : Run) (groups : List Nat) : Prop :=
  ∃ before after, before.length = run.start ∧ groups = before ++ List.replicate run.length 0 ++ after

theorem Run.Covers.append {run : Run} {groups : List Nat} (covers : run.Covers groups) (more : List Nat) :
    run.Covers (groups ++ more) := by
  obtain ⟨before, after, start, rfl⟩ := covers
  exact ⟨before, after ++ more, start, List.append_assoc _ _ _⟩

theorem Run.Covers.filled {run : Run} {groups : List Nat} (covers : run.Covers groups) :
    groups.take run.start ++ (List.replicate run.length 0 ++ groups.drop (run.start + run.length)) = groups := by
  obtain ⟨before, after, start, rfl⟩ := covers
  have zeros : (before ++ List.replicate run.length 0).length = run.start + run.length := by
    rw [List.length_append, List.length_replicate, start]
  rw [List.drop_left' zeros, List.append_assoc, List.take_left' start]

/-- The zeros so far are a run too, unless a better one was found before them. -/
theorem covers_longestRun (groups : List Nat) {before : List Nat} {length : Nat} {best : Run}
    (found : best.Covers (before ++ List.replicate length 0)) :
    (longestRun groups (before.length + length) length best).Covers (before ++ List.replicate length 0 ++ groups) := by
  induction groups generalizing before length best with
  | nil => rwa [longestRun, List.append_nil]
  | cons group groups ih =>
    rw [longestRun]
    split
    next zero =>
      have longer : before ++ List.replicate (length + 1) 0 = before ++ List.replicate length 0 ++ [0] := by
        rw [List.replicate_succ', List.append_assoc]
      have step : before ++ List.replicate length 0 ++ group :: groups =
          before ++ List.replicate (length + 1) 0 ++ groups := by
        rw [longer, zero, List.append_assoc _ [0], List.singleton_append]
      rw [step, Nat.add_assoc, Nat.add_sub_cancel]
      apply ih
      split
      · exact ⟨before, [], rfl, (List.append_nil _).symm⟩
      · rw [longer]
        exact found.append [0]
    next =>
      have step : before ++ List.replicate length 0 ++ group :: groups =
          (before ++ List.replicate length 0 ++ [group]) ++ List.replicate 0 0 ++ groups := by
        rw [List.replicate_zero, List.append_nil, List.append_assoc _ [group], List.singleton_append]
      have position : before.length + length + 1 = (before ++ List.replicate length 0 ++ [group]).length + 0 := by
        rw [List.length_append, List.length_append, List.length_replicate, List.length_singleton, Nat.add_zero]
      rw [step, position]
      apply ih
      rw [List.replicate_zero, List.append_nil]
      exact found.append [group]

theorem covers_longestRun_groups (groups : List Nat) : (longestRun groups 0 0 ⟨0, 0⟩).Covers groups :=
  @covers_longestRun groups [] 0 ⟨0, 0⟩ ⟨[], [], rfl, rfl⟩

/-- The digits of a group, and a colon in front of each but the first. -/
def colonsText (groups : List Nat) : List Char := groups.flatMap fun group => ':' :: Digits.text 16 group

theorem groupsText_cons (group : Nat) (groups : List Nat) :
    groupsText (group :: groups) = Digits.text 16 group ++ colonsText groups := by
  induction groups generalizing group with
  | nil => simp only [groupsText, colonsText, List.map_cons, List.map_nil, joinWith, List.flatMap_nil, List.append_nil]
  | cons next groups ih =>
    have tail := ih next
    simp only [groupsText, colonsText, List.map_cons, joinWith, List.flatMap_cons, List.cons_append] at tail ⊢
    rw [tail]

theorem read_group {value : Nat} (small : value < 65536) {rest : List Char} (stops : Digits.Stops 16 rest) :
    group.read (Digits.text 16 value ++ rest) = some (value, rest) := by
  refine @Digits.Field.read_text group (by decide) (by decide) value ?_ ?_ rest stops
  · simp only [group]
    omega
  · intro longest bound
    cases bound
    exact ⟨by decide, small⟩

/-- What follows the groups of an address: its end, or the two colons that stand for zeros. -/
inductive AfterGroups : List Char → Prop
  | bracket (rest : List Char) : AfterGroups (']' :: rest)
  | gap (rest : List Char) : AfterGroups (':' :: ':' :: rest)

/-- A group is followed by a character that no address of dots contains. -/
structure Undotted (rest : List Char) : Prop where
  stops (base : Nat) : Digits.Stops base rest
  dotless : rest.head? ≠ some '.'

theorem undotted_cons {char : Char} (rest : List Char) (other : Hex.value? char = none) (dotless : char ≠ '.') :
    Undotted (char :: rest) where
  stops base := Digits.stops_cons (by rw [Digits.value?, other, Option.filter_none])
  dotless := by
    rw [List.head?_cons, ne_eq, Option.some.injEq]
    exact dotless

theorem undotted_colon (rest : List Char) : Undotted (':' :: rest) := undotted_cons rest rfl (by decide)

theorem undotted_bracket (rest : List Char) : Undotted (']' :: rest) := undotted_cons rest rfl (by decide)

theorem AfterGroups.undotted {rest : List Char} (after : AfterGroups rest) : Undotted rest := by
  cases after with
  | bracket rest => exact undotted_bracket rest
  | gap rest => exact undotted_colon (':' :: rest)

theorem undotted_colonsText (groups : List Nat) {rest : List Char} (undotted : Undotted rest) :
    Undotted (colonsText groups ++ rest) := by
  cases groups with
  | nil => exact undotted
  | cons group groups => exact undotted_colon _

/-- Where no digit stands there is no group, and no IPv4 address either. -/
theorem Undotted.unread {rest : List Char} (undotted : Undotted rest) :
    Ipv4.read rest = none ∧ group.read rest = none := by
  refine ⟨Ipv4.read_eq_none ?_, group.read_of_stops (undotted.stops 16)⟩
  rw [Digits.split_of_stops (undotted.stops 10)]
  exact undotted.dotless

theorem AfterGroups.unread {rest : List Char} (after : AfterGroups rest) (first : Bool) :
    (separated first rest).bind Ipv4.read = none ∧ (separated first rest).bind group.read = none := by
  cases first with
  | true => exact after.undotted.unread
  | false =>
    cases after with
    | bracket rest => exact ⟨rfl, rfl⟩
    | gap rest => exact (undotted_colon rest).unread

/-- The digits of a group are not taken for the start of an IPv4 address. -/
theorem read_text_eq_none (value : Nat) {rest : List Char} (undotted : Undotted rest) :
    Ipv4.read (Digits.text 16 value ++ rest) = none := by
  have dotless : ∀ digit, digit < 16 → Hex.digit digit ≠ '.' := by decide
  have skipped (digits : List Nat) (small : ∀ digit ∈ digits, digit < 16) :
      (Digits.split 10 (digits.map Hex.digit ++ rest)).2.head? ≠ some '.' := by
    induction digits with
    | nil =>
      rw [List.map_nil, List.nil_append, Digits.split_of_stops (undotted.stops 10)]
      exact undotted.dotless
    | cons digit digits ih =>
      obtain ⟨first, others⟩ := List.forall_mem_cons.mp small
      rw [List.map_cons, List.cons_append, Digits.split]
      split
      · exact ih others
      · rw [List.head?_cons, ne_eq, Option.some.injEq]
        exact dotless digit first
  apply Ipv4.read_eq_none
  rw [Digits.text_eq]
  exact skipped _ (Digits.values_lt (by decide) value)

theorem readGroups_after {rest : List Char} (after : AfterGroups rest) (more : Nat) (first : Bool) :
    readGroups more first rest = ⟨[], false, rest⟩ := by
  cases more with
  | zero => rfl
  | succ more =>
    obtain ⟨noAddress, noGroup⟩ := after.unread first
    simp only [readGroups, noAddress, noGroup, ite_self]

/-- One group is read, and then the groups after it. -/
theorem readGroups_group {value more : Nat} (small : value < 65536) {first : Bool} {chars rest : List Char}
    (undotted : Undotted rest) (front : separated first chars = some (Digits.text 16 value ++ rest)) :
    readGroups (more + 1) first chars =
      let tail := readGroups more false rest
      ⟨value :: tail.values, tail.endsInIpv4, tail.rest⟩ := by
  simp only [readGroups, front, Option.bind_some, read_text_eq_none value undotted, ite_self,
    read_group small (undotted.stops 16)]

theorem readGroups_colonsText {groups : List Nat} {rest : List Char} (small : ∀ group ∈ groups, group < 65536)
    (after : AfterGroups rest) {more : Nat} (room : groups.length ≤ more) :
    readGroups more false (colonsText groups ++ rest) = ⟨groups, false, rest⟩ := by
  induction groups generalizing more with
  | nil => exact readGroups_after after more false
  | cons group groups ih =>
    obtain ⟨first, others⟩ := List.forall_mem_cons.mp small
    obtain ⟨more, rfl⟩ : ∃ fewer, more = fewer + 1 := ⟨more - 1, by rw [List.length_cons] at room; omega⟩
    have front : separated false (colonsText (group :: groups) ++ rest) =
        some (Digits.text 16 group ++ (colonsText groups ++ rest)) := by
      simp only [separated, colonsText, List.flatMap_cons, List.cons_append, expect_cons, List.append_assoc]
      rfl
    rw [readGroups_group first (undotted_colonsText groups after.undotted) front,
      ih others (Nat.le_of_succ_le_succ room)]

theorem readGroups_groupsText {groups : List Nat} {rest : List Char} (small : ∀ group ∈ groups, group < 65536)
    (after : AfterGroups rest) {more : Nat} (room : groups.length ≤ more) :
    readGroups more true (groupsText groups ++ rest) = ⟨groups, false, rest⟩ := by
  cases groups with
  | nil => exact readGroups_after after more true
  | cons group groups =>
    obtain ⟨first, others⟩ := List.forall_mem_cons.mp small
    obtain ⟨more, rfl⟩ : ∃ fewer, more = fewer + 1 := ⟨more - 1, by rw [List.length_cons] at room; omega⟩
    have front : separated true (groupsText (group :: groups) ++ rest) =
        some (Digits.text 16 group ++ (colonsText groups ++ rest)) := by
      simp only [separated, groupsText_cons, if_true, List.append_assoc]
    rw [readGroups_group first (undotted_colonsText groups after.undotted) front,
      readGroups_colonsText others after (Nat.le_of_succ_le_succ room)]

/-- An address with a gap is read back where the gap is as long as what it replaces. -/
theorem read_gap {address : Ipv6} {head tail : List Nat} {gap : Nat} (long : 1 < gap)
    (whole : head ++ (List.replicate gap 0 ++ tail) = address.groups) (rest : List Char) :
    read (groupsText head ++ ':' :: ':' :: (groupsText tail ++ ']' :: rest)) = some (address, ']' :: rest) := by
  have eight := address.length_groups
  rw [← whole, List.length_append, List.length_append, List.length_replicate] at eight
  have small := address.groups_lt
  rw [← whole] at small
  have front := readGroups_groupsText (fun group inside => small group (List.mem_append_left _ inside))
    (.gap (groupsText tail ++ ']' :: rest)) (show head.length ≤ 8 by omega)
  have back := readGroups_groupsText
    (fun group inside => small group (List.mem_append_right _ (List.mem_append_right _ inside)))
    (.bracket rest) (show tail.length ≤ 7 - head.length by omega)
  have zeros : 8 - head.length - tail.length = gap := by omega
  have few : head.length ≠ 8 := by omega
  simp only [read, front, few, if_false, Bool.false_eq_true, expect_cons, back, zeros, List.append_assoc, whole,
    ofGroups?_groups, bind, Option.bind, pure]

theorem read_text {address : Ipv6} (unmapped : address.toIpv4? = none) (rest : List Char) :
    read (address.text ++ ']' :: rest) = some (address, ']' :: rest) := by
  simp only [text, unmapped]
  split
  next long =>
    rw [List.append_assoc, List.cons_append, List.cons_append]
    exact read_gap long (covers_longestRun_groups address.groups).filled rest
  next =>
    have whole := readGroups_groupsText address.groups_lt (.bracket rest) (Nat.le_of_eq address.length_groups)
    simp only [read, whole, address.length_groups, if_true, ofGroups?_groups, bind, Option.bind, pure]

end Ipv6

namespace SocketAddress

theorem readPort_text (port : UInt16) : readPort (':' :: Digits.decimal port.toNat) = some (port, []) := by
  have digits := @Digits.Field.read_text portField (by decide) (by decide) port.toNat (Nat.le_of_lt_succ port.toNat_lt)
    nofun [] Digits.stops_nil
  rw [List.append_nil] at digits
  have field : portField.read (Digits.decimal port.toNat) = some (port.toNat, []) := digits
  simp only [readPort, expect_cons, field, bind, Option.bind, pure, Nat.toUInt16_eq, UInt16.ofNat_toNat]

theorem parse?_v4 (ip : Ipv4) (port : UInt16) : parse? (text (.v4 ip port)) = some (.v4 ip port) := by
  have whole : readV4 (text (.v4 ip port)) = some (.v4 ip port, []) := by
    simp only [readV4, text, Ipv4.read_text ip (Ipv6.undotted_colon _ |>.stops 10), readPort_text, bind, Option.bind, pure]
  rw [parse?, whole, Option.some_or]

theorem parse?_v6 {ip : Ipv6} (unmapped : ip.toIpv4? = none) (port : UInt16) :
    parse? (text (.v6 ip port 0 0)) = some (.v6 ip port 0 0) := by
  have shape : text (.v6 ip port 0 0) = '[' :: (ip.text ++ ']' :: ':' :: Digits.decimal port.toNat) := by
    simp only [text, if_true, List.append_nil, List.cons_append]
  have other : readV4 (text (.v6 ip port 0 0)) = none := by
    rw [shape, readV4, (Ipv6.undotted_cons _ rfl (by decide)).unread.1]
    rfl
  have unscoped (rest : List Char) : readScope (']' :: rest) = none := rfl
  have whole : readV6 (text (.v6 ip port 0 0)) = some (.v6 ip port 0 0, []) := by
    simp only [readV6, shape, expect_cons, Ipv6.read_text unmapped, unscoped, Option.getD_none, readPort_text, bind,
      Option.bind, pure]
  rw [parse?, other, whole, Option.none_or]

end SocketAddress

namespace Address

theorem parse?_socket (address : Address) : SocketAddress.parse? address.socket.text = some address.socket := by
  rw [socket, Ip.ofIpv6]
  cases mapped : address.ip.toIpv4? with
  | none => exact SocketAddress.parse?_v6 mapped address.port
  | some inner => exact SocketAddress.parse?_v4 inner address.port

/-- A relay id in front makes a text that is no transport address. -/
theorem parse?_relayed (id : RelayId) (rest : List Char) :
    SocketAddress.parse? (Digits.decimal id.toNat ++ '@' :: rest) = none := by
  have stops : Digits.Stops 10 ('@' :: rest) := Digits.stops_cons rfl
  have other : SocketAddress.readV4 (Digits.decimal id.toNat ++ '@' :: rest) = none := by
    have undotted : (Digits.split 10 (Digits.decimal id.toNat ++ '@' :: rest)).2.head? ≠ some '.' := by
      rw [Digits.decimal, Digits.split_text (by decide) (by decide) _ stops, List.head?_cons, ne_eq, Option.some.injEq]
      decide
    rw [SocketAddress.readV4, Ipv4.read_eq_none undotted]
    rfl
  have unbracketed : SocketAddress.readV6 (Digits.decimal id.toNat ++ '@' :: rest) = none := by
    obtain ⟨digit, more, small, shape⟩ := Digits.text_eq_cons (show 2 ≤ 10 by decide) id.toNat
    have digits : ∀ digit, digit < 10 → Hex.digit digit ≠ '[' := by decide
    rw [SocketAddress.readV6, Digits.decimal, shape, List.cons_append, expect_other (digits digit small)]
    rfl
  rw [SocketAddress.parse?, other, unbracketed, Option.none_or]

theorem text_relay : relay.text = "relay".toList := rfl

theorem isRelay_iff {address : Address} : address.isRelay = true ↔ address = relay := decide_eq_true_iff

theorem text_of_direct {address : Address} (direct : address.relayId = 0) (other : address ≠ relay) :
    address.text = address.socket.text := by
  rw [text, if_neg (mt isRelay_iff.mp other), if_pos direct]

theorem text_of_relayed {address : Address} (relayed : address.relayId ≠ 0) :
    address.text = Digits.decimal address.relayId.toNat ++ '@' :: address.socket.text := by
  have other : address ≠ relay := by
    rintro rfl
    exact relayed rfl
  rw [text, if_neg (mt isRelay_iff.mp other), if_neg relayed]

/-- The text of an address is that of a transport address if it has no relay id and does not name the relay itself. -/
theorem parse?_text (address : Address) : SocketAddress.parse? address.text =
    if address.relayId = 0 ∧ address ≠ relay then some address.socket else none := by
  by_cases direct : address.relayId = 0
  · by_cases itself : address = relay
    · rw [if_neg (fun both => both.2 itself), itself, text_relay]
      rfl
    · rw [if_pos ⟨direct, itself⟩, text_of_direct direct itself, parse?_socket]
  · rw [if_neg (fun both => direct both.1), text_of_relayed direct, parse?_relayed]

theorem text_ne_relay {address : Address} (relayed : address.relayId ≠ 0) : address.text ≠ relay.text := by
  have letters : ∀ digit, digit < 10 → Hex.digit digit ≠ 'r' := by decide
  obtain ⟨digit, more, small, shape⟩ := Digits.text_eq_cons (show 2 ≤ 10 by decide) address.relayId.toNat
  rw [text_of_relayed relayed, Digits.decimal, shape, List.cons_append]
  intro same
  exact letters digit small (List.cons.inj same).1

theorem eq_of_socket {one other : Address} (ids : one.relayId = other.relayId) (sockets : one.socket = other.socket) :
    one = other := by
  rw [← ofSocket_socket one, ← ofSocket_socket other, ids, sockets]

theorem eq_of_text_relayed {one other : Address} (relayed : one.relayId ≠ 0) (more : other.relayId ≠ 0)
    (same : one.text = other.text) : one = other := by
  rw [text_of_relayed relayed, text_of_relayed more] at same
  have cut (address : Address) : Digits.split 10 (Digits.decimal address.relayId.toNat ++ '@' :: address.socket.text) =
      (Digits.values 10 address.relayId.toNat, '@' :: address.socket.text) :=
    Digits.split_text (by decide) (by decide) _ (Digits.stops_cons rfl)
  have parts := cut one
  rw [same, cut other, Prod.mk.injEq, List.cons.injEq] at parts
  obtain ⟨digits, _, rest⟩ := parts
  have ids := congrArg (Digits.number 10) digits
  rw [Digits.number_values, Digits.number_values] at ids
  have sockets := congrArg SocketAddress.parse? rest
  rw [parse?_socket, parse?_socket, Option.some.injEq] at sockets
  exact eq_of_socket (UInt32.toNat_inj.mp ids.symm) sockets.symm

/-- No two addresses have the same text. -/
theorem eq_of_text {one other : Address} (same : one.text = other.text) : one = other := by
  have parsed := congrArg SocketAddress.parse? same
  rw [parse?_text, parse?_text] at parsed
  by_cases direct : one.relayId = 0 ∧ one ≠ relay
  · by_cases more : other.relayId = 0 ∧ other ≠ relay
    · rw [if_pos direct, if_pos more, Option.some.injEq] at parsed
      exact eq_of_socket (direct.1.trans more.1.symm) parsed
    · rw [if_pos direct, if_neg more] at parsed
      cases parsed
  · by_cases more : other.relayId = 0 ∧ other ≠ relay
    · rw [if_neg direct, if_pos more] at parsed
      cases parsed
    · by_cases itself : one = relay <;> by_cases too : other = relay
      · rw [itself, too]
      · rw [itself] at same
        exact absurd same.symm (text_ne_relay fun direct => more ⟨direct, too⟩)
      · rw [too] at same
        exact absurd same (text_ne_relay fun plain => direct ⟨plain, itself⟩)
      · exact eq_of_text_relayed (fun plain => direct ⟨plain, itself⟩) (fun plain => more ⟨plain, too⟩) same

end Address

/-- An agent is told to advertise an address by its text and advertises just that, unless the address goes through a relay or
names the relay itself. No two addresses have one text. -/
theorem AgentSettings.advertises_text :
    (∀ (settings : AgentSettings) (address : Address), settings.validate = .ok () →
      ({ settings with relayAddress := some (String.ofList address.text) } : AgentSettings).config =
        if address.relayId = 0 ∧ address ≠ Address.relay then .ok ⟨settings.toAgentLimits, some address⟩
        else .error .badAddress) ∧
    ∀ one other : Address, one.text = other.text → one = other := by
  refine ⟨fun settings address valid => ?_, fun one other => Address.eq_of_text⟩
  simp only [config, AgentSettings.address, String.toList_ofList, Address.parse?_text]
  by_cases direct : address.relayId = 0 ∧ address ≠ Address.relay
  · have whole : Address.ofSocket 0 address.socket = address := by
      have same := Address.ofSocket_socket address
      rwa [direct.1] at same
    simp only [if_pos direct, whole, valid, bind, Except.bind]
    rfl
  · simp only [if_neg direct, bind, Except.bind]

theorem AgentSettings.advertises_text_gap :
    let address : Address := ⟨0, 443, ⟨[0x20, 0x01, 0x0d, 0xb8, 0, 0, 0, 0, 0, 0, 0, 1, 0, 0, 0, 1], rfl⟩⟩
    ({} : AgentSettings).validate = .ok () ∧
      ({ relayAddress := some (String.ofList address.text) } : AgentSettings).config = .ok ⟨{}, some address⟩ := by
  intro address
  have direct : address.relayId = 0 ∧ address ≠ Address.relay := by decide
  refine ⟨rfl, ?_⟩
  rw [AgentSettings.advertises_text.1 {} address rfl, if_pos direct]

end OnionCircuit
