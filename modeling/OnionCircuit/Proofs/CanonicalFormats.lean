import OnionCircuit.Message.Control

/-! What is written is read back, whatever follows it, and nothing else is read. The scope and the
flow label of an endpoint get lost on the way; everything else of a message has one spelling. -/

namespace OnionCircuit
namespace Format

/-- Whatever is written is read as its plain form, and what is read was spelled as it is written. -/
structure Canonical (format : Format α) (plain : α → α) : Prop where
  read_write (value : α) (rest : Bytes) : format.read (format.write value ++ rest) = .ok (plain value, rest)
  spelled {bytes : Bytes} {value : α} {rest : Bytes} (taken : format.read bytes = .ok (value, rest)) :
    bytes = format.write value ++ rest

namespace Canonical
variable {α β γ : Type} {format : Format α} {plain : α → α}

/-- Only plain values are read. -/
theorem plain_of_read (laws : format.Canonical plain) {bytes : Bytes} {value : α} {rest : Bytes}
    (taken : format.read bytes = .ok (value, rest)) : plain value = value := by
  have again := laws.read_write value rest
  rw [← laws.spelled taken, taken, Except.ok.injEq, Prod.mk.injEq] at again
  exact again.1.symm

/-- A reader that goes on after a format has read a value that was written. -/
theorem take (laws : format.Canonical plain) {bytes : Bytes} {next : α × Bytes → Except Malformed γ} {result : γ}
    (taken : (format.read bytes >>= next) = .ok result) :
    ∃ value rest, plain value = value ∧ bytes = format.write value ++ rest ∧ next (value, rest) = .ok result := by
  cases first : format.read bytes with
  | error problem =>
    rw [first] at taken
    cases taken
  | ok front =>
    obtain ⟨value, rest⟩ := front
    rw [first] at taken
    exact ⟨value, rest, laws.plain_of_read first, laws.spelled first, taken⟩

/-- Goes on after a value that was written. -/
theorem read_bind (laws : format.Canonical plain) (value : α) (rest : Bytes)
    (next : α × Bytes → Except Malformed γ) :
    (format.read (format.write value ++ rest) >>= next) = next (plain value, rest) := by
  rw [laws.read_write]
  rfl

/-- Another type for the same bytes only has to keep apart what can be read. -/
theorem convert {other : β → β} {forth : α → β} {back : β → α} (laws : format.Canonical plain)
    (settles : ∀ value, forth (plain (back value)) = other value)
    (returns : ∀ value, plain value = value → back (forth value) = value) :
    (format.convert forth back).Canonical other where
  read_write value rest := by
    simp only [Format.convert, laws.read_write, Except.map, settles]
  spelled := by
    intro bytes value rest taken
    simp only [Format.convert] at taken ⊢
    cases first : format.read bytes with
    | error problem => simp only [first, Except.map, reduceCtorEq] at taken
    | ok front =>
      obtain ⟨inner, after⟩ := front
      simp only [first, Except.map, Except.ok.injEq, Prod.mk.injEq] at taken
      obtain ⟨rfl, rfl⟩ := taken
      rw [returns inner (laws.plain_of_read first)]
      exact laws.spelled first

theorem pair {right : Format β} {other : β → β} (laws : format.Canonical plain) (more : right.Canonical other) :
    (format.pair right).Canonical (Prod.map plain other) where
  read_write value rest := by
    simp only [Format.pair, List.append_assoc, laws.read_bind, more.read_bind]
    rfl
  spelled := by
    intro bytes value rest taken
    obtain ⟨front, between, _, rfl, later⟩ := laws.take taken
    obtain ⟨back, after, _, rfl, last⟩ := more.take later
    cases last
    simp only [Format.pair, List.append_assoc]

end Canonical

theorem canonical_octets (size : Nat) : (octets size).Canonical id where
  read_write value rest := by
    have after : (value.bytes ++ rest).drop size = rest := List.drop_left' value.length_bytes
    simp only [octets, Octets.first?_append, after, id]
  spelled := by
    intro bytes value rest taken
    simp only [octets] at taken ⊢
    split at taken
    next front found =>
      cases taken
      simp only [Octets.first?, Octets.ofBytes?] at found
      split at found
      next => cases found; exact (List.take_append_drop size bytes).symm
      next => cases found
    next => cases taken

/-- Of a number with too many digits the last ones are kept. -/
theorem canonical_number (size : Nat) :
    (number size).Canonical fun value => Bytes.ofLittle (Bytes.little size value) := by
  refine (canonical_octets size).convert (fun value => rfl) ?_
  intro value _
  obtain ⟨bytes, rfl⟩ := value
  simp only [Bytes.little_ofLittle]

/-- A word is a number that fits. -/
theorem canonical_word {β : Type} {size : Nat} {forth : Nat → β} {back : β → Nat}
    (fits : ∀ value, back value < Bytes.span size) (forth_back : ∀ value, forth (back value) = value)
    (back_forth : ∀ number, number < Bytes.span size → back (forth number) = number) :
    ((number size).convert forth back).Canonical id := by
  refine (canonical_number size).convert (fun value => ?_) (fun value kept => ?_)
  · rw [Bytes.ofLittle_little (fits value), forth_back, id]
  · apply back_forth
    have small := Bytes.ofLittle_lt (Bytes.little size value)
    rwa [Bytes.length_little, kept] at small

theorem canonical_byte : byte.Canonical id := by
  refine canonical_word (fun value => value.toNat_lt) (fun value => by simp) (fun number small => ?_)
  simp only [Nat.toUInt8, UInt8.toNat_ofNat']
  exact Nat.mod_eq_of_lt small

theorem canonical_word16 : word16.Canonical id := by
  refine canonical_word (fun value => value.toNat_lt) (fun value => by simp) (fun number small => ?_)
  simp only [Nat.toUInt16, UInt16.toNat_ofNat']
  exact Nat.mod_eq_of_lt small

theorem canonical_word32 : word32.Canonical id := by
  refine canonical_word (fun value => value.toNat_lt) (fun value => by simp) (fun number small => ?_)
  simp only [Nat.toUInt32, UInt32.toNat_ofNat']
  exact Nat.mod_eq_of_lt small

theorem canonical_signed64 : signed64.Canonical id := by
  refine canonical_word (fun value => value.toUInt64.toNat_lt) (fun value => by simp) (fun number small => ?_)
  simp only [UInt64.toUInt64_toInt64, Nat.toUInt64, UInt64.toNat_ofNat']
  exact Nat.mod_eq_of_lt small

theorem canonical_flag : flag.Canonical id where
  read_write value rest := by
    apply (canonical_byte.read_bind _ rest _).trans
    cases value <;> rfl
  spelled := by
    intro bytes value rest taken
    obtain ⟨front, after, _, rfl, later⟩ := canonical_byte.take taken
    simp only at later
    split at later
    next zero => cases later; rw [zero]; rfl
    next =>
      split at later
      next one => cases later; rw [one]; rfl
      next => cases later

theorem Canonical.optional {format : Format α} {plain : α → α} (laws : format.Canonical plain) :
    format.optional.Canonical (Option.map plain) where
  read_write value rest := by
    cases value with
    | none =>
      simp only [Format.optional, canonical_byte.read_bind]
      rfl
    | some value =>
      simp only [Format.optional, List.append_assoc, canonical_byte.read_bind, laws.read_bind]
      rfl
  spelled := by
    intro bytes value rest taken
    obtain ⟨front, after, _, rfl, later⟩ := canonical_byte.take taken
    simp only at later
    split at later
    next zero => cases later; rw [zero]; rfl
    next =>
      split at later
      next => cases later
      next one =>
        obtain ⟨inner, end_, _, rfl, last⟩ := laws.take later
        cases last
        simp only [Format.optional, List.append_assoc, Decidable.of_not_not one]

theorem canonical_address : address.Canonical id := by
  refine (canonical_word32.pair (canonical_word16.pair (canonical_octets 16))).convert ?_ ?_
  · intro value
    rfl
  · intro value _
    rfl

theorem canonical_socket : socket.Canonical SocketAddress.plain where
  read_write value rest := by
    cases value with
    | v4 ip port =>
      simp only [socket, List.append_assoc, canonical_word32.read_bind,
        ((canonical_octets 4).pair canonical_word16).read_bind]
      rfl
    | v6 ip port flow scope =>
      simp only [socket, List.append_assoc, canonical_word32.read_bind,
        ((canonical_octets 16).pair canonical_word16).read_bind]
      rfl
  spelled := by
    intro bytes value rest taken
    obtain ⟨family, after, _, rfl, later⟩ := canonical_word32.take taken
    simp only at later
    split at later
    next zero =>
      obtain ⟨inner, end_, _, rfl, last⟩ := ((canonical_octets 4).pair canonical_word16).take later
      cases last
      simp only [socket, List.append_assoc, zero]
    next =>
      split at later
      next => cases later
      next one =>
        obtain ⟨inner, end_, _, rfl, last⟩ := ((canonical_octets 16).pair canonical_word16).take later
        cases last
        simp only [socket, List.append_assoc, Decidable.of_not_not one]

theorem canonical_endpoint : endpoint.Canonical Endpoint.plain := by
  refine (canonical_word32.pair canonical_socket).convert ?_ ?_
  · intro value
    rfl
  · intro value _
    rfl

end Format

theorem Verdict.code_of_ofCode? {code : UInt32} {verdict : Verdict} (found : ofCode? code = some verdict) :
    verdict.code = code := by
  simpa using List.find?_some found

theorem Verdict.canonical_format : Verdict.format.Canonical id where
  read_write verdict rest := by
    apply (Format.canonical_word32.read_bind _ rest _).trans
    simp only [id, ofCode?_code]
    rfl
  spelled := by
    intro bytes verdict rest taken
    obtain ⟨word, after, _, rfl, later⟩ := Format.canonical_word32.take taken
    simp only at later
    split at later
    next found =>
      cases later
      rw [← code_of_ofCode? found]
      rfl
    next => cases later

theorem AssignBlock.canonical_format : AssignBlock.format.Canonical id := by
  refine ((Format.canonical_octets 32).pair (Format.canonical_flag.pair Format.canonical_flag)).convert ?_ ?_
  · intro block
    rfl
  · intro parts _
    rfl

theorem AssignResponse.canonical_format : AssignResponse.format.Canonical id := by
  refine (Verdict.canonical_format.pair (Format.canonical_word32.pair (Format.canonical_word32.pair
    (Format.canonical_address.optional.pair Format.canonical_signed64)))).convert ?_ ?_
  · intro response
    simp only [Prod.map, id, Option.map_id_fun]
  · intro parts _
    rfl

/-- Without the scope and the flow label of the next hop. -/
def SetupBlock.plain (block : SetupBlock) : SetupBlock := { block with endpoint := block.endpoint.plain }

theorem SetupBlock.canonical_format : SetupBlock.format.Canonical SetupBlock.plain := by
  refine (Format.canonical_word32.pair (Format.canonical_endpoint.pair (Format.canonical_octets 32))).convert ?_ ?_
  · intro block
    rfl
  · intro parts _
    rfl

theorem SetupResponse.canonical_format : SetupResponse.format.Canonical id := by
  refine Verdict.canonical_format.convert ?_ ?_
  · intro response
    rfl
  · intro parts _
    rfl

theorem PingRequest.canonical_format : PingRequest.format.Canonical id := by
  refine Format.canonical_word32.convert ?_ ?_
  · intro request
    rfl
  · intro parts _
    rfl

/-- Without the scope and the flow label of the next hop. -/
def PingResponse.plain (response : PingResponse) : PingResponse :=
  { response with outer := response.outer.map Endpoint.plain }

theorem PingResponse.canonical_format : PingResponse.format.Canonical PingResponse.plain := by
  refine (Format.canonical_signed64.pair (Format.canonical_endpoint.optional.pair
    Format.canonical_signed64)).convert ?_ ?_
  · intro response
    rfl
  · intro parts _
    rfl

namespace Format

/-- What decoding makes of bytes: a message is decoded to its plain form, whatever follows it; what is decoded is plain
and stands in front; and bytes are decoded just when some message stands in front of them. -/
structure DecodesWritten (format : Format α) (plain : α → α) : Prop where
  decode_write (value : α) (rest : Bytes) : format.decode (format.write value ++ rest) = .ok (plain value)
  decode_iff (bytes : Bytes) (value : α) :
    format.decode bytes = .ok value ↔ plain value = value ∧ format.write value <+: bytes
  decodes_iff (bytes : Bytes) : (∃ value, format.decode bytes = .ok value) ↔ ∃ value, format.write value <+: bytes

theorem Canonical.decodesWritten {format : Format α} {plain : α → α} (laws : format.Canonical plain) :
    format.DecodesWritten plain := by
  have reads (value : α) (rest : Bytes) : format.decode (format.write value ++ rest) = .ok (plain value) := by
    rw [decode, laws.read_write]
    rfl
  have front {bytes : Bytes} {value : α} (decoded : format.decode bytes = .ok value) :
      plain value = value ∧ format.write value <+: bytes := by
    rw [decode] at decoded
    cases taken : format.read bytes with
    | error problem =>
      rw [taken] at decoded
      cases decoded
    | ok result =>
      obtain ⟨inner, rest⟩ := result
      rw [taken] at decoded
      cases decoded
      exact ⟨laws.plain_of_read taken, rest, (laws.spelled taken).symm⟩
  refine ⟨reads, fun bytes value => ⟨front, ?_⟩, fun bytes => ⟨?_, ?_⟩⟩
  · intro ⟨kept, rest, whole⟩
    rw [← whole, reads, kept]
  · intro ⟨value, decoded⟩
    exact ⟨value, (front decoded).2⟩
  · intro ⟨value, rest, whole⟩
    exact ⟨plain value, by rw [← whole, reads]⟩

end Format

/-- Each message is decoded from its own bytes, whatever follows them, and from no others. Only endpoints lose their
scope and flow label, so no bytes but those of plain messages are decoded. -/
theorem messages_decode_written :
    AssignBlock.format.DecodesWritten id ∧ AssignResponse.format.DecodesWritten id ∧
    SetupBlock.format.DecodesWritten SetupBlock.plain ∧ SetupResponse.format.DecodesWritten id ∧
    PingRequest.format.DecodesWritten id ∧ PingResponse.format.DecodesWritten PingResponse.plain :=
  ⟨AssignBlock.canonical_format.decodesWritten, AssignResponse.canonical_format.decodesWritten,
    SetupBlock.canonical_format.decodesWritten, SetupResponse.canonical_format.decodesWritten,
    PingRequest.canonical_format.decodesWritten, PingResponse.canonical_format.decodesWritten⟩

end OnionCircuit
