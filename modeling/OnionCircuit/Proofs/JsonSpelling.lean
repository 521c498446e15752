import OnionCircuit.Json.Reader
import OnionCircuit.Proofs.DigitReading

/-! All spellings of a JSON value. A text spells a value if it consists of the value's tokens in their order, each in
one of its own spellings, with blanks between them. Every such text is read as the value it spells. -/

namespace OnionCircuit.Json

/-- The letter of an escape of two characters, and what it stands for. -/
def escapes : List (Char × Char) :=
  [('\x22', '\x22'), ('\\', '\\'), ('/', '/'), ('b', '\x08'), ('f', '\x0c'), ('n', '\n'), ('r', '\r'), ('t', '\t')]

inductive UnitSpelled : TextUnit → List Char → Prop
  | itself {char : Char} (printable : ¬ char < ' ') (unquoted : char ≠ '\x22') (unslashed : char ≠ '\\') :
    UnitSpelled (.char char) [char]
  | escape {letter char : Char} (listed : (letter, char) ∈ escapes) : UnitSpelled (.char char) ['\\', letter]
  | code {a b c d : Char} {first second third fourth : Nat} (high : Hex.value? a = some first)
    (next : Hex.value? b = some second) (low : Hex.value? c = some third) (last : Hex.value? d = some fourth) :
    UnitSpelled (.ofCode (UInt16.ofNat (4096 * first + 256 * second + 16 * third + fourth))) ['\\', 'u', a, b, c, d]

inductive UnitsSpelled : List TextUnit → List Char → Prop
  | nil : UnitsSpelled [] []
  | cons {unit : TextUnit} {units : List TextUnit} {front rest : List Char} (first : UnitSpelled unit front)
    (more : UnitsSpelled units rest) : UnitsSpelled (unit :: units) (front ++ rest)

/-- At least one decimal digit and nothing else. -/
def IsDigits (chars : List Char) : Prop := chars ≠ [] ∧ ∀ char ∈ chars, char.isDigit = true

inductive IsFraction : List Char → Prop
  | none : IsFraction []
  | digits {digits : List Char} (decimal : IsDigits digits) : IsFraction ('.' :: digits)

inductive IsExponent : List Char → Prop
  | none : IsExponent []
  | digits {mark : Char} {sign digits : List Char} (marked : mark = 'e' ∨ mark = 'E')
    (signed : sign = [] ∨ sign = ['+'] ∨ sign = ['-']) (decimal : IsDigits digits) :
    IsExponent (mark :: sign ++ digits)

/-- What may stand after the whole part of a number. -/
def IsTail (tail : List Char) : Prop :=
  ∃ fraction exponent, IsFraction fraction ∧ IsExponent exponent ∧ tail = fraction ++ exponent

inductive TokenSpelled : Token → List Char → Prop
  | openObject : TokenSpelled .openObject ['\x7b']
  | closeObject : TokenSpelled .closeObject ['\x7d']
  | openArray : TokenSpelled .openArray ['[']
  | closeArray : TokenSpelled .closeArray [']']
  | comma : TokenSpelled .comma [',']
  | colon : TokenSpelled .colon [':']
  | null : TokenSpelled .null "null".toList
  | true : TokenSpelled (.bool true) "true".toList
  | false : TokenSpelled (.bool false) "false".toList
  | number {numeral : Numeral} (tail : IsTail numeral.tail) : TokenSpelled (.number numeral)
    ((if numeral.negative then ['-'] else []) ++ Digits.decimal numeral.whole ++ numeral.tail)
  | text {units : List TextUnit} {body : List Char} (spelled : UnitsSpelled units body) :
    TokenSpelled (.text units) ('\x22' :: body ++ ['\x22'])

/-- Tokens in their order, with blanks before, between and after them. -/
inductive Written : List Token → List Char → Prop
  | nil : Written [] []
  | blank {tokens : List Token} {char : Char} {rest : List Char} (blank : char ∈ [' ', '\n', '\t', '\r'])
    (more : Written tokens rest) : Written tokens (char :: rest)
  | token {token : Token} {tokens : List Token} {front rest : List Char} (first : TokenSpelled token front)
    (more : Written tokens rest) : Written (token :: tokens) (front ++ rest)

mutual

def tokens : Json → List Token
  | .null => [.null]
  | .bool value => [.bool value]
  | .number numeral => [.number numeral]
  | .text units => [.text units]
  | .array [] => [.openArray, .closeArray]
  | .array (item :: items) => .openArray :: item.tokens ++ (itemTokens items ++ [.closeArray])
  | .object [] => [.openObject, .closeObject]
  | .object ((key, json) :: members) =>
    .openObject :: .text key :: .colon :: json.tokens ++ (memberTokens members ++ [.closeObject])

def itemTokens : List Json → List Token
  | [] => []
  | item :: items => .comma :: item.tokens ++ itemTokens items

def memberTokens : List (List TextUnit × Json) → List Token
  | [] => []
  | (key, json) :: members => .comma :: .text key :: .colon :: json.tokens ++ memberTokens members

end

/-- The texts of a value. -/
def Spells (json : Json) (chars : List Char) : Prop := Written json.tokens chars

/-! Reading tokens. -/

theorem unescape?_of_mem {letter char : Char} (listed : (letter, char) ∈ escapes) :
    Token.unescape? letter = some char ∧ letter ≠ 'u' := by
  simp only [escapes, List.mem_cons, Prod.mk.injEq, List.not_mem_nil, or_false] at listed
  obtain ⟨rfl, rfl⟩ | ⟨rfl, rfl⟩ | ⟨rfl, rfl⟩ | ⟨rfl, rfl⟩ | ⟨rfl, rfl⟩ | ⟨rfl, rfl⟩ | ⟨rfl, rfl⟩ | ⟨rfl, rfl⟩ :=
    listed <;> decide

theorem readText_unit {unit : TextUnit} {front : List Char} (spelled : UnitSpelled unit front) (done : List TextUnit)
    (rest : List Char) : Token.readText done (front ++ rest) = Token.readText (unit :: done) rest := by
  cases spelled with
  | itself printable unquoted unslashed =>
    rw [List.singleton_append, Token.readText, if_neg printable]
    · exact fun same => unquoted same
    · intro a b c d more same
      exact absurd same unslashed
    · intro char more same
      exact absurd same unslashed
  | escape listed =>
    obtain ⟨found, other⟩ := unescape?_of_mem listed
    rw [List.cons_append, List.singleton_append, Token.readText, found]
    intro a b c d more same
    exact absurd same other
  | @code a b c d first second third fourth high next low last =>
    have digits : Token.code? [a, b, c, d] =
        some (UInt16.ofNat (4096 * first + 256 * second + 16 * third + fourth)) := by
      have number : Digits.number 16 [first, second, third, fourth] =
          4096 * first + 256 * second + 16 * third + fourth := by
        simp only [Digits.number, List.foldl_cons, List.foldl_nil]
        omega
      simp only [Token.code?, List.mapM_cons, List.mapM_nil, high, next, low, last, bind, Option.bind, pure, Option.map,
        number]
    simp only [List.cons_append, List.nil_append, Token.readText, digits]

theorem readText_units {units : List TextUnit} {body : List Char} (spelled : UnitsSpelled units body)
    (done : List TextUnit) (rest : List Char) :
    Token.readText done (body ++ '\x22' :: rest) = some (done.reverse ++ units, rest) := by
  induction spelled generalizing done with
  | nil => rw [List.nil_append, Token.readText, List.append_nil]
  | cons first more ih =>
    rw [List.append_assoc, readText_unit first, ih, List.reverse_cons, List.append_assoc, List.singleton_append]

/-- What follows a number is no part of it. -/
def NumberEnds (rest : List Char) : Prop :=
  ∀ char ∈ rest.head?, char.isDigit = false ∧ char ≠ '.' ∧ char ≠ 'e' ∧ char ≠ 'E'

theorem readDigits?_append {digits rest : List Char} (decimal : IsDigits digits)
    (ends : ∀ char ∈ rest.head?, char.isDigit = false) : Token.readDigits? (digits ++ rest) = some (digits, rest) := by
  have stop : rest.takeWhile Char.isDigit = [] ∧ rest.dropWhile Char.isDigit = rest := by
    cases rest with
    | nil => exact ⟨rfl, rfl⟩
    | cons char rest =>
      have other := ends char rfl
      rw [List.takeWhile_cons, List.dropWhile_cons, other]
      exact ⟨rfl, rfl⟩
  have present : digits.isEmpty = false := List.isEmpty_eq_false_iff.mpr decimal.1
  rw [Token.readDigits?, List.takeWhile_append_of_pos decimal.2, List.dropWhile_append_of_pos decimal.2, stop.1, stop.2,
    List.append_nil, present]
  rfl

theorem isDigits_decimal (value : Nat) : IsDigits (Digits.decimal value) := by
  have digits : ∀ digit, digit < 10 → (Hex.digit digit).isDigit = true := by decide
  rw [Digits.decimal, Digits.text_eq]
  refine ⟨mt List.map_eq_nil_iff.mp (Digits.values_ne_nil value), ?_⟩
  intro char inside
  obtain ⟨digit, member, rfl⟩ := List.mem_map.mp inside
  exact digits digit (Digits.values_lt (by decide) value digit member)

/-- Only zero itself starts with a zero. -/
theorem unpadded_decimal (value : Nat) :
    ¬ ((Digits.decimal value).head? = some '0' ∧ Digits.decimal value ≠ ['0']) := by
  intro ⟨zero, longer⟩
  have nought : ∀ digit, digit < 10 → Hex.digit digit = '0' → digit = 0 := by decide
  obtain ⟨digit, more, shape⟩ := List.exists_cons_of_ne_nil (@Digits.values_ne_nil 10 value)
  rw [Digits.decimal, Digits.text_eq, shape, List.map_cons, List.head?_cons, Option.some.injEq] at zero
  have small := Digits.values_lt (show 2 ≤ 10 by decide) value digit (by rw [shape]; exact List.mem_cons_self)
  have first := nought digit small zero
  have several : 1 < (Digits.values 10 value).length := by
    cases more with
    | nil =>
      rw [Digits.decimal, Digits.text_eq, shape, first] at longer
      exact absurd rfl longer
    | cons => simp [shape]
  apply Digits.head?_values (by decide) value several
  rw [shape, first, List.head?_cons]

theorem readWhole?_decimal (value : Nat) {rest : List Char} (ends : ∀ char ∈ rest.head?, char.isDigit = false) :
    Token.readWhole? (Digits.decimal value ++ rest) = some (value, rest) := by
  simp only [Token.readWhole?, readDigits?_append (isDigits_decimal value) ends, bind, Option.bind,
    if_neg (unpadded_decimal value)]
  rw [Digits.decimal, Digits.filterMap_text (by decide) (by decide), Digits.number_values]
  rfl

theorem readExponent?_append {exponent rest : List Char} (spelled : IsExponent exponent) (ends : NumberEnds rest) :
    Token.readExponent? (exponent ++ rest) = some (exponent, rest) := by
  cases spelled with
  | none =>
    cases rest with
    | nil => rfl
    | cons char rest =>
      obtain ⟨_, _, small, large⟩ := ends char rfl
      rw [List.nil_append, Token.readExponent?, if_neg (not_or.mpr ⟨small, large⟩)]
  | @digits mark sign digits marked signed decimal =>
    have reads := readDigits?_append decimal fun char inside => (ends char inside).1
    obtain ⟨digit, more, shape⟩ := List.exists_cons_of_ne_nil decimal.1
    have number := decimal.2 digit (by rw [shape]; exact List.mem_cons_self)
    have unsigned : digit ≠ '+' ∧ digit ≠ '-' := by
      refine ⟨?_, ?_⟩
      · rintro rfl
        cases number
      · rintro rfl
        cases number
    rw [List.cons_append, List.cons_append, List.append_assoc, Token.readExponent?, if_pos marked]
    rcases signed with rfl | rfl | rfl
    · have skipped : ((digits ++ rest).take 1).filter (fun char => char = '+' || char = '-') = [] := by
        rw [shape]
        simp [unsigned]
      simp [skipped, reads]
    · simp [reads]
    · simp [reads]

theorem readFraction?_append {fraction rest : List Char} (spelled : IsFraction fraction)
    (ends : ∀ char ∈ rest.head?, char.isDigit = false ∧ char ≠ '.') :
    Token.readFraction? (fraction ++ rest) = some (fraction, rest) := by
  cases spelled with
  | none =>
    rw [List.nil_append, Token.readFraction?]
    intro more same
    rw [same] at ends
    exact (ends '.' rfl).2 rfl
  | digits decimal =>
    have reads := readDigits?_append decimal fun char inside => (ends char inside).1
    simp only [List.cons_append, Token.readFraction?, reads, bind, Option.bind, pure]

/-- A number ends where its exponent starts, and its whole part ends where its fraction starts. -/
theorem head?_exponent {exponent rest : List Char} (spelled : IsExponent exponent) (ends : NumberEnds rest) :
    ∀ char ∈ (exponent ++ rest).head?, char.isDigit = false ∧ char ≠ '.' := by
  intro char inside
  cases spelled with
  | none => exact ⟨(ends char inside).1, (ends char inside).2.1⟩
  | digits marked =>
    rw [List.cons_append, List.cons_append, List.head?_cons, Option.mem_some_iff] at inside
    subst inside
    rcases marked with rfl | rfl <;> decide

theorem head?_fraction {fraction rest : List Char} (spelled : IsFraction fraction)
    (ends : ∀ char ∈ rest.head?, char.isDigit = false ∧ char ≠ '.') :
    ∀ char ∈ (fraction ++ rest).head?, char.isDigit = false := by
  intro char inside
  cases spelled with
  | none => exact (ends char inside).1
  | digits decimal =>
    rw [List.cons_append, List.head?_cons, Option.mem_some_iff] at inside
    subst inside
    rfl

theorem readNumber?_append (negative : Bool) (whole : Nat) {tail rest : List Char} (spelled : IsTail tail)
    (ends : NumberEnds rest) :
    Token.readNumber? negative (Digits.decimal whole ++ (tail ++ rest)) =
      some (.number ⟨negative, whole, tail⟩, rest) := by
  obtain ⟨fraction, exponent, fractional, exponential, rfl⟩ := spelled
  have after := head?_exponent exponential ends
  rw [List.append_assoc]
  simp only [Token.readNumber?, readWhole?_decimal whole (head?_fraction fractional after),
    readFraction?_append fractional after, readExponent?_append exponential ends, bind, Option.bind, pure]

def Token.isNumber : Token → Bool
  | .number _ => true
  | _ => false

theorem read?_digit {digit : Nat} (small : digit < 10) (rest : List Char) :
    Token.read? (Hex.digit digit :: rest) = Token.readNumber? false (Hex.digit digit :: rest) := by
  match digit, small with
  | 0, _ | 1, _ | 2, _ | 3, _ | 4, _ | 5, _ | 6, _ | 7, _ | 8, _ | 9, _ => rfl

/-- A token is read off the front; a number has to end there. -/
theorem read?_append {token : Token} {front rest : List Char} (spelled : TokenSpelled token front)
    (ends : token.isNumber = true → NumberEnds rest) : Token.read? (front ++ rest) = some (token, rest) := by
  cases spelled with
  | openObject => rfl
  | closeObject => rfl
  | openArray => rfl
  | closeArray => rfl
  | comma => rfl
  | colon => rfl
  | null => rfl
  | true => rfl
  | false => rfl
  | @number numeral proper =>
    obtain ⟨negative, whole, tail⟩ := numeral
    have reads := readNumber?_append negative whole proper (ends rfl)
    cases negative with
    | true => simpa [Token.read?] using reads
    | false =>
      obtain ⟨digit, more, small, shape⟩ := Digits.text_eq_cons (show 2 ≤ 10 by decide) whole
      simp only [Bool.false_eq_true, if_false, List.nil_append, List.append_assoc]
      rw [← reads, Digits.decimal, shape, List.cons_append, read?_digit small]
  | text spelled =>
    rw [List.append_assoc, List.cons_append, List.singleton_append, Token.read?, readText_units spelled]
    rfl

/-- The next token is no number. -/
def Tame (tokens : List Token) : Prop := ∀ token ∈ tokens.head?, token.isNumber = false

/-- No number stands directly before another. -/
def Apart : List Token → Prop
  | [] => True
  | token :: rest => (token.isNumber = true → Tame rest) ∧ Apart rest

/-- What a token that is no number starts with does not go on with a number. -/
theorem numberEnds_of_written {tokens : List Token} {chars : List Char} (written : Written tokens chars)
    (tame : Tame tokens) : NumberEnds chars := by
  intro char inside
  cases written with
  | nil => cases inside
  | @blank tokens first rest blank more =>
    cases inside
    simp only [List.mem_cons, List.not_mem_nil, or_false] at blank
    rcases blank with rfl | rfl | rfl | rfl <;> decide
  | token first more =>
    cases first with
    | number tail => cases tame _ rfl
    | openObject => cases inside; decide
    | closeObject => cases inside; decide
    | openArray => cases inside; decide
    | closeArray => cases inside; decide
    | comma => cases inside; decide
    | colon => cases inside; decide
    | null => cases inside; decide
    | true => cases inside; decide
    | false => cases inside; decide
    | text spelled => cases inside; decide

/-- A token starts with something else than a blank. -/
theorem exists_cons_of_spelled {token : Token} {front : List Char} (spelled : TokenSpelled token front) :
    ∃ char more, front = char :: more ∧ Token.isBlank char = false := by
  cases spelled with
  | openObject => exact ⟨_, _, rfl, rfl⟩
  | closeObject => exact ⟨_, _, rfl, rfl⟩
  | openArray => exact ⟨_, _, rfl, rfl⟩
  | closeArray => exact ⟨_, _, rfl, rfl⟩
  | comma => exact ⟨_, _, rfl, rfl⟩
  | colon => exact ⟨_, _, rfl, rfl⟩
  | null => exact ⟨_, _, rfl, rfl⟩
  | true => exact ⟨_, _, rfl, rfl⟩
  | false => exact ⟨_, _, rfl, rfl⟩
  | @number numeral tail =>
    have digits : ∀ digit, digit < 10 → Token.isBlank (Hex.digit digit) = false := by decide
    obtain ⟨digit, more, small, shape⟩ := Digits.text_eq_cons (show 2 ≤ 10 by decide) numeral.whole
    cases numeral.negative with
    | true => exact ⟨'-', _, rfl, rfl⟩
    | false => exact ⟨Hex.digit digit, _, by rw [Digits.decimal, shape]; rfl, digits digit small⟩
  | text spelled => exact ⟨_, _, rfl, rfl⟩

theorem scan_written {tokens : List Token} {chars : List Char} (written : Written tokens chars) (apart : Apart tokens)
    (done : List Token) {fuel : Nat} (enough : chars.length ≤ fuel) :
    Token.scan fuel done chars = some (done.reverse ++ tokens) := by
  induction written generalizing done fuel with
  | nil => rw [Token.scan, List.append_nil]
  | @blank tokens char rest blank more ih =>
    obtain ⟨fuel, rfl⟩ : ∃ fewer, fuel = fewer + 1 := ⟨fuel - 1, by rw [List.length_cons] at enough; omega⟩
    have skipped : Token.isBlank char = true := List.contains_iff_mem.mpr blank
    rw [Token.scan, if_pos skipped]
    exact ih apart done (Nat.le_of_succ_le_succ enough)
  | @token token tokens front rest first more ih =>
    have reads := read?_append first fun number => numberEnds_of_written more (apart.1 number)
    obtain ⟨char, others, rfl, filled⟩ := exists_cons_of_spelled first
    obtain ⟨fuel, rfl⟩ : ∃ fewer, fuel = fewer + 1 := ⟨fuel - 1, by rw [List.cons_append, List.length_cons] at enough; omega⟩
    have fewer : rest.length ≤ fuel := by
      rw [List.cons_append, List.length_cons, List.length_append] at enough
      omega
    rw [List.cons_append] at reads ⊢
    rw [Token.scan, filled, if_neg Bool.false_ne_true, reads]
    simp only
    rw [ih apart.2 (token :: done) fewer, List.reverse_cons, List.append_assoc, List.singleton_append]

mutual

theorem apart_tokens (json : Json) {rest : List Token} (tame : Tame rest) (apart : Apart rest) :
    Apart (json.tokens ++ rest) := by
  cases json with
  | null => exact ⟨nofun, apart⟩
  | bool value => exact ⟨nofun, apart⟩
  | number numeral => exact ⟨fun _ => tame, apart⟩
  | text units => exact ⟨nofun, apart⟩
  | array items =>
    cases items with
    | nil => exact ⟨nofun, nofun, apart⟩
    | cons item items =>
      obtain ⟨close, before⟩ :=
        apart_itemTokens items (show Tame (.closeArray :: rest) by rintro _ ⟨⟩; rfl) ⟨nofun, apart⟩
      simp only [tokens, List.append_assoc, List.cons_append, List.nil_append]
      exact ⟨nofun, apart_tokens item close before⟩
  | object members =>
    cases members with
    | nil => exact ⟨nofun, nofun, apart⟩
    | cons member members =>
      obtain ⟨key, json⟩ := member
      obtain ⟨close, before⟩ :=
        apart_memberTokens members (show Tame (.closeObject :: rest) by rintro _ ⟨⟩; rfl) ⟨nofun, apart⟩
      simp only [tokens, List.append_assoc, List.cons_append, List.nil_append]
      exact ⟨nofun, nofun, nofun, apart_tokens json close before⟩

theorem apart_itemTokens (items : List Json) {rest : List Token} (tame : Tame rest) (apart : Apart rest) :
    Tame (itemTokens items ++ rest) ∧ Apart (itemTokens items ++ rest) := by
  cases items with
  | nil => exact ⟨tame, apart⟩
  | cons item items =>
    obtain ⟨close, before⟩ := apart_itemTokens items tame apart
    simp only [itemTokens, List.append_assoc, List.cons_append]
    exact ⟨by rintro _ ⟨⟩; rfl, nofun, apart_tokens item close before⟩

theorem apart_memberTokens (members : List (List TextUnit × Json)) {rest : List Token} (tame : Tame rest)
    (apart : Apart rest) : Tame (memberTokens members ++ rest) ∧ Apart (memberTokens members ++ rest) := by
  cases members with
  | nil => exact ⟨tame, apart⟩
  | cons member members =>
    obtain ⟨key, json⟩ := member
    obtain ⟨close, before⟩ := apart_memberTokens members tame apart
    simp only [memberTokens, List.append_assoc, List.cons_append]
    exact ⟨by rintro _ ⟨⟩; rfl, nofun, nofun, nofun, apart_tokens json close before⟩

end

/-! Reading values. -/

/-- Where an item or the end of an array may stand, an item is read as anywhere else. -/
theorem awaitItem_tokens (json : Json) (frames : List Frame) :
    json.tokens.foldlM Reading.next (.awaitItem frames) =
      json.tokens.foldlM Reading.next (.awaitValue (.array [] :: frames)) := by
  cases json with
  | null => rfl
  | bool value => rfl
  | number numeral => rfl
  | text units => rfl
  | array items => cases items <;> rfl
  | object members => cases members <;> rfl

mutual

theorem reads_tokens (json : Json) (frames : List Frame) :
    json.tokens.foldlM Reading.next (.awaitValue frames) = some (.complete json frames) := by
  cases json with
  | null => rfl
  | bool value => rfl
  | number numeral => rfl
  | text units => rfl
  | array items =>
    cases items with
    | nil => rfl
    | cons item items =>
      have first := reads_tokens item (.array [] :: frames)
      have others := reads_itemTokens items item [] frames
      rw [tokens, List.cons_append, List.foldlM_cons]
      simp only [Reading.next, Reading.beginValue, bind, Option.bind]
      rw [List.foldlM_append, awaitItem_tokens, first]
      exact others
  | object members =>
    cases members with
    | nil => rfl
    | cons member members =>
      obtain ⟨key, json⟩ := member
      have first := reads_tokens json (.object [] key :: frames)
      have others := reads_memberTokens members (key, json) [] frames
      rw [tokens, List.cons_append, List.foldlM_cons]
      simp only [Reading.next, Reading.beginValue, bind, Option.bind, List.cons_append, List.foldlM_cons]
      rw [List.foldlM_append, first]
      exact others

theorem reads_itemTokens (items : List Json) (last : Json) (done : List Json) (frames : List Frame) :
    (itemTokens items ++ [Token.closeArray]).foldlM Reading.next (.complete last (.array done :: frames)) =
      some (.complete (.array ((last :: done).reverse ++ items)) frames) := by
  cases items with
  | nil => rw [List.append_nil]; rfl
  | cons item items =>
    have first := reads_tokens item (.array (last :: done) :: frames)
    have others := reads_itemTokens items item (last :: done) frames
    rw [List.reverse_cons, List.append_assoc, List.singleton_append] at others
    rw [itemTokens, List.cons_append, List.cons_append, List.foldlM_cons, List.append_assoc]
    simp only [Reading.next, bind, Option.bind]
    rw [List.foldlM_append, first]
    exact others

theorem reads_memberTokens (members : List (List TextUnit × Json)) (last : List TextUnit × Json)
    (done : List (List TextUnit × Json)) (frames : List Frame) :
    (memberTokens members ++ [Token.closeObject]).foldlM Reading.next (.complete last.2 (.object done last.1 :: frames)) =
      some (.complete (.object ((last :: done).reverse ++ members)) frames) := by
  cases members with
  | nil => rw [List.append_nil]; rfl
  | cons member members =>
    obtain ⟨key, json⟩ := member
    have first := reads_tokens json (.object (last :: done) key :: frames)
    have others := reads_memberTokens members (key, json) (last :: done) frames
    rw [List.reverse_cons, List.append_assoc, List.singleton_append] at others
    rw [memberTokens, List.cons_append, List.cons_append, List.foldlM_cons]
    simp only [Reading.next, bind, Option.bind, List.cons_append, List.foldlM_cons, List.append_assoc]
    rw [List.foldlM_append, first]
    exact others

end

/-- Every text of a value is read as that value. -/
theorem parse?_of_spells {json : Json} {chars : List Char} (spells : Spells json chars) : parse? chars = some json := by
  have apart := apart_tokens json (show Tame [] by rintro _ ⟨⟩) trivial
  rw [List.append_nil] at apart
  have scanned := scan_written spells apart [] (Nat.le_refl _)
  rw [List.reverse_nil, List.nil_append] at scanned
  rw [parse?, Token.all?, scanned]
  simp only [bind, Option.bind, ofTokens?]
  rw [reads_tokens]
  rfl

end OnionCircuit.Json
