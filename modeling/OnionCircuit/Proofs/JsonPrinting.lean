import OnionCircuit.Json.Printer
import OnionCircuit.Proofs.JsonSpelling

/-! What is printed of a value is one of its spellings, so it is read back. -/

namespace OnionCircuit.Json

/-- A half of a surrogate pair is one. -/
def UnitProper : TextUnit → Prop
  | .char _ => True
  | .half code => (TextUnit.isHigh code || TextUnit.isLow code) = true

def TokenProper : Token → Prop
  | .number numeral => IsTail numeral.tail
  | .text units => ∀ unit ∈ units, UnitProper unit
  | _ => True

/-- Whatever a value keeps as it was written can be written. -/
def Proper (json : Json) : Prop := ∀ token ∈ json.tokens, TokenProper token

/-- The two digits of a byte. -/
theorem value?_byte (value : UInt8) : Hex.value? (Hex.digit (value.toNat / 16)) = some (value.toNat / 16) ∧
    Hex.value? (Hex.digit (value.toNat % 16)) = some (value.toNat % 16) := by
  have small := value.toNat_lt
  exact ⟨Hex.value?_digit _ (by omega), Hex.value?_digit _ (by omega)⟩

theorem unitSpelled_bytes (high low : UInt8) :
    UnitSpelled (.ofCode (UInt16.ofNat (256 * high.toNat + low.toNat)))
      ("\\u".toList ++ Hex.byte high ++ Hex.byte low) := by
  obtain ⟨first, second⟩ := value?_byte high
  obtain ⟨third, fourth⟩ := value?_byte low
  have spelled := UnitSpelled.code first second third fourth
  have whole : 4096 * (high.toNat / 16) + 256 * (high.toNat % 16) + 16 * (low.toNat / 16) + low.toNat % 16 =
      256 * high.toNat + low.toNat := by omega
  rw [whole] at spelled
  exact spelled

theorem ofCode_control {char : Char} (small : char.toNat < 32) :
    TextUnit.ofCode (UInt16.ofNat char.toNat) = .char char := by
  have code : (UInt16.ofNat char.toNat).toNat = char.toNat := by
    rw [UInt16.toNat_ofNat']
    omega
  have plain : (TextUnit.isHigh (UInt16.ofNat char.toNat) || TextUnit.isLow (UInt16.ofNat char.toNat)) = false := by
    simp only [TextUnit.isHigh, TextUnit.isLow, UInt16.le_iff_toNat_le, code, Bool.or_eq_false_iff, Bool.and_eq_false_iff,
      decide_eq_false_iff_not]
    exact ⟨Or.inl (Nat.not_le.mpr (Nat.lt_trans small (by decide))),
      Or.inl (Nat.not_le.mpr (Nat.lt_trans small (by decide)))⟩
  rw [TextUnit.ofCode, plain, if_neg Bool.false_ne_true, code, Char.ofNat_toNat]

theorem unitSpelled_charText (char : Char) : UnitSpelled (.char char) (charText char) := by
  have listed : ∀ pair ∈ Token.shortEscapes, (pair.2, pair.1) ∈ escapes := by decide
  rw [charText]
  split
  next entry letter found =>
    have same := List.find?_some found
    rw [← of_decide_eq_true same]
    exact .escape (listed _ (List.mem_of_find?_eq_some found))
  next unlisted =>
    split
    next control =>
      have small : char.toNat < 32 := control
      have byte : char.toNat.toUInt8.toNat = char.toNat := by
        simp only [Nat.toUInt8, UInt8.toNat_ofNat']
        omega
      have spelled := unitSpelled_bytes 0 char.toNat.toUInt8
      rw [byte, UInt8.toNat_zero, Nat.mul_zero, Nat.zero_add, ofCode_control small] at spelled
      exact spelled
    next printable =>
      refine .itself printable ?_ ?_
      · rintro rfl
        cases unlisted
      · rintro rfl
        cases unlisted

theorem unitSpelled_unitText {unit : TextUnit} (proper : UnitProper unit) : UnitSpelled unit (unitText unit) := by
  cases unit with
  | char char => exact unitSpelled_charText char
  | half code =>
    have spelled := unitSpelled_bytes (code >>> 8).toUInt8 code.toUInt8
    have whole : UInt16.ofNat (256 * (code >>> 8).toUInt8.toNat + code.toUInt8.toNat) = code := by
      have small := code.toNat_lt
      apply UInt16.toNat_inj.mp
      simp [UInt16.toNat_ofNat', Nat.shiftRight_eq_div_pow]
      omega
    have itself : TextUnit.ofCode code = .half code := if_pos proper
    rw [whole, itself] at spelled
    exact spelled

theorem unitsSpelled_flatMap {units : List TextUnit} (proper : ∀ unit ∈ units, UnitProper unit) :
    UnitsSpelled units (units.flatMap unitText) := by
  induction units with
  | nil => exact .nil
  | cons unit units ih =>
    obtain ⟨first, others⟩ := List.forall_mem_cons.mp proper
    exact .cons (unitSpelled_unitText first) (ih others)

theorem tokenSpelled_quoted {units : List TextUnit} (proper : TokenProper (.text units)) :
    TokenSpelled (.text units) (quoted units) := .text (unitsSpelled_flatMap proper)

theorem written_newLine (depth : Nat) {tokens : List Token} {rest : List Char} (written : Written tokens rest) :
    Written tokens (newLine depth ++ rest) := by
  refine .blank (by decide) ?_
  induction 2 * depth with
  | zero => exact written
  | succ count ih => exact .blank (by decide) ih

/-- A key and what stands between it and its value. -/
theorem written_key {key : List TextUnit} (proper : TokenProper (.text key)) {tokens : List Token} {rest : List Char}
    (written : Written tokens rest) : Written (.text key :: .colon :: tokens) (quoted key ++ (": ".toList ++ rest)) := by
  have value : Written tokens (' ' :: rest) := .blank (by decide) written
  have colon := Written.token .colon value
  exact .token (tokenSpelled_quoted proper) colon

mutual

/-- What is printed of a value are its tokens, whatever comes after them. -/
theorem written_pretty (json : Json) (proper : ∀ token ∈ json.tokens, TokenProper token) (depth : Nat)
    {tokens : List Token} {rest : List Char} (written : Written tokens rest) :
    Written (json.tokens ++ tokens) (json.pretty depth ++ rest) := by
  cases json with
  | null => exact .token .null written
  | bool value => cases value <;> exact .token (by constructor) written
  | number numeral => exact .token (.number (proper _ List.mem_cons_self)) written
  | text units => exact .token (tokenSpelled_quoted (proper _ List.mem_cons_self)) written
  | array items =>
    cases items with
    | nil =>
      have brackets := Written.token .openArray (Written.token .closeArray written)
      exact brackets
    | cons item items =>
      simp only [Json.tokens, List.cons_append, List.forall_mem_cons, List.forall_mem_append] at proper
      obtain ⟨_, first, others, _⟩ := proper
      have close := written_newLine depth (.token .closeArray written)
      have body := written_pretty item first (depth + 1) (written_prettyItems items others (depth + 1) close)
      simpa [Json.tokens, pretty] using Written.token .openArray (written_newLine (depth + 1) body)
  | object members =>
    cases members with
    | nil =>
      have braces := Written.token .openObject (Written.token .closeObject written)
      exact braces
    | cons member members =>
      obtain ⟨key, json⟩ := member
      simp only [Json.tokens, List.cons_append, List.forall_mem_cons, List.forall_mem_append] at proper
      obtain ⟨_, name, _, first, others, _⟩ := proper
      have close := written_newLine depth (.token .closeObject written)
      have body := written_pretty json first (depth + 1) (written_prettyMembers members others (depth + 1) close)
      simpa [Json.tokens, pretty] using Written.token .openObject (written_newLine (depth + 1) (written_key name body))

theorem written_prettyItems (items : List Json) (proper : ∀ token ∈ itemTokens items, TokenProper token) (depth : Nat)
    {tokens : List Token} {rest : List Char} (written : Written tokens rest) :
    Written (itemTokens items ++ tokens) (prettyItems depth items ++ rest) := by
  cases items with
  | nil => exact written
  | cons item items =>
    simp only [itemTokens, List.cons_append, List.forall_mem_cons, List.forall_mem_append] at proper
    obtain ⟨_, first, others⟩ := proper
    have body := written_pretty item first depth (written_prettyItems items others depth written)
    simpa [itemTokens, prettyItems] using Written.token .comma (written_newLine depth body)

theorem written_prettyMembers (members : List (List TextUnit × Json))
    (proper : ∀ token ∈ memberTokens members, TokenProper token) (depth : Nat) {tokens : List Token} {rest : List Char}
    (written : Written tokens rest) : Written (memberTokens members ++ tokens) (prettyMembers depth members ++ rest) := by
  cases members with
  | nil => exact written
  | cons member members =>
    obtain ⟨key, json⟩ := member
    simp only [memberTokens, List.cons_append, List.forall_mem_cons, List.forall_mem_append] at proper
    obtain ⟨_, name, _, first, others⟩ := proper
    have body := written_pretty json first depth (written_prettyMembers members others depth written)
    simpa [memberTokens, prettyMembers] using Written.token .comma (written_newLine depth (written_key name body))

end

theorem spells_pretty {json : Json} (proper : Proper json) (depth : Nat) : Spells json (json.pretty depth) := by
  have written := written_pretty json proper depth .nil
  rwa [List.append_nil, List.append_nil] at written

/-! Values that can be written. -/

theorem isTail_nil : IsTail [] := ⟨[], [], .none, .none, rfl⟩

theorem proper_of_token {json : Json} {token : Token} (alone : json.tokens = [token]) (proper : TokenProper token) :
    Proper json := by
  intro other member
  rw [alone] at member
  exact List.mem_singleton.mp member ▸ proper

theorem proper_number (number : Int) : Proper (.number (.ofInt number)) := proper_of_token rfl isTail_nil

theorem proper_ofChars (chars : List Char) : TokenProper (.text (TextUnit.ofChars chars)) := by
  intro unit member
  obtain ⟨char, -, rfl⟩ := List.mem_map.mp member
  trivial

theorem proper_text (chars : List Char) : Proper (.text (TextUnit.ofChars chars)) :=
  proper_of_token rfl (proper_ofChars chars)

theorem proper_memberTokens {members : List (List TextUnit × Json)}
    (proper : ∀ member ∈ members, TokenProper (.text member.1) ∧ Proper member.2) :
    ∀ token ∈ memberTokens members, TokenProper token := by
  induction members with
  | nil => exact fun _ member => nomatch member
  | cons first members ih =>
    obtain ⟨⟨key, value⟩, rest⟩ := List.forall_mem_cons.mp proper
    intro token member
    simp only [memberTokens, List.cons_append, List.mem_cons, List.mem_append] at member
    obtain rfl | rfl | rfl | member | member := member
    · trivial
    · exact key
    · trivial
    · exact value token member
    · exact ih rest token member

theorem proper_object {members : List (List TextUnit × Json)}
    (proper : ∀ member ∈ members, TokenProper (.text member.1) ∧ Proper member.2) : Proper (.object members) := by
  cases members with
  | nil =>
    intro token member
    simp only [tokens, List.mem_cons, List.not_mem_nil, or_false] at member
    obtain rfl | rfl := member <;> trivial
  | cons first members =>
    obtain ⟨⟨key, value⟩, rest⟩ := List.forall_mem_cons.mp proper
    intro token member
    simp only [tokens, List.cons_append, List.mem_cons, List.mem_append, List.not_mem_nil, or_false] at member
    obtain rfl | rfl | rfl | member | member | rfl := member
    · trivial
    · exact key
    · trivial
    · exact value token member
    · exact proper_memberTokens rest token member
    · trivial

end OnionCircuit.Json
