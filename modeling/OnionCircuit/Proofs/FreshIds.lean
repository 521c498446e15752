import OnionCircuit.Proofs.AgentHistory

/-! How the ids of a new exchange come out of the random words. Each id is drawn in a loop inside a loop: until it is not zero,
until nobody uses it, and the outer one until it is not the inner one either. Together the loops come down to a rule about
which words count. -/

namespace OnionCircuit

namespace RelayId

/-- What it takes from some words, and which it leaves, to draw an id. -/
abbrev Drawing := List UInt32 → RelayId → List UInt32 → Prop

/-- One random word. -/
def Word : Drawing := fun words id rest => words = id :: rest

/-- A loop that draws until it gets what it wants. -/
inductive Until (wanted : RelayId → Prop) (drawing : Drawing) : Drawing
  | done {words rest id} (drawn : drawing words id rest) (good : wanted id) : Until wanted drawing words id rest
  | again {words middle rest other id} (drawn : drawing words other middle) (bad : ¬ wanted other)
      (later : Until wanted drawing middle id rest) : Until wanted drawing words id rest

variable {drawing : Drawing} {one other : RelayId → Prop} {words middle rest : List UInt32} {id : RelayId}

private theorem Until.both_of_done (drawn : Until one drawing words id rest) (good : other id) :
    Until (fun id => one id ∧ other id) drawing words id rest := by
  induction drawn with
  | done drawn accepted => exact .done drawn ⟨accepted, good⟩
  | again drawn bad _ ih => exact .again drawn (fun both => bad both.1) (ih good)

private theorem Until.both_of_again {last : RelayId} (drawn : Until one drawing words last middle) (bad : ¬ other last)
    (later : Until (fun id => one id ∧ other id) drawing middle id rest) :
    Until (fun id => one id ∧ other id) drawing words id rest := by
  induction drawn with
  | done drawn _ => exact .again drawn (fun both => bad both.2) later
  | again drawn worse _ ih => exact .again drawn (fun both => worse both.1) (ih bad later)

/-- A word that the loop inside refuses is one more turn of the draw that follows. -/
private theorem Until.delay {last : RelayId} (drawn : drawing words last middle) (bad : ¬ one last)
    (later : Until other (Until one drawing) middle id rest) : Until other (Until one drawing) words id rest := by
  cases later with
  | done inner good => exact .done (.again drawn bad inner) good
  | again inner worse more => exact .again (.again drawn bad inner) worse more

/-- A loop around a loop is one loop that wants both. -/
theorem until_until : Until other (Until one drawing) words id rest ↔
    Until (fun id => one id ∧ other id) drawing words id rest := by
  constructor
  · intro drawn
    induction drawn with
    | done inner good => exact inner.both_of_done good
    | again inner bad _ ih => exact inner.both_of_again bad ih
  · intro drawn
    induction drawn with
    | done drawn both => exact .done (.done drawn both.1) both.2
    | @again _ _ _ last _ drawn bad _ ih =>
      by_cases good : one last
      · exact .again (.done drawn good) (fun also => bad ⟨good, also⟩) ih
      · exact ih.delay drawn good

/-- A loop over words skips those it does not want. -/
theorem until_word_iff : Until one Word words id rest ↔
    ∃ skipped, words = skipped ++ id :: rest ∧ (∀ word ∈ skipped, ¬ one word) ∧ one id := by
  constructor
  · intro drawn
    induction drawn with
    | done drawn good => exact ⟨[], drawn, nofun, good⟩
    | @again _ _ _ last _ drawn bad _ ih =>
      obtain ⟨skipped, rfl, none, good⟩ := ih
      exact ⟨last :: skipped, drawn, List.forall_mem_cons.mpr ⟨bad, none⟩, good⟩
  · rintro ⟨skipped, rfl, none, good⟩
    induction skipped with
    | nil => exact .done rfl good
    | cons word skipped ih =>
      obtain ⟨bad, none⟩ := List.forall_mem_cons.mp none
      exact .again rfl bad (ih none)

theorem pick?_eq_some_iff {accept : RelayId → Bool} :
    pick? accept words = some (id, rest) ↔ Until (fun word => word ≠ 0 ∧ accept word = true) Word words id rest := by
  constructor
  · intro picks
    induction words with
    | nil => cases picks
    | cons word words ih =>
      rw [pick?] at picks
      split at picks
      next good =>
        cases picks
        exact .done rfl good
      next bad => exact .again rfl bad (ih picks)
  · intro drawn
    induction drawn with
    | done drawn good =>
      cases drawn
      rw [pick?, if_pos good]
    | again drawn bad _ ih =>
      cases drawn
      rw [pick?, if_neg bad, ih]

theorem pick?_isSome_iff {accept : RelayId → Bool} :
    (pick? accept words).isSome = true ↔ ∃ word ∈ words, word ≠ 0 ∧ accept word = true := by
  induction words with
  | nil => simp [pick?]
  | cons word words ih =>
    rw [pick?]
    split
    next good => simp [good]
    next bad => simp [ih, bad]

end RelayId

namespace ExchangeTable
open RelayId (Word Until)

/-- A word that can be the id of a new exchange. -/
def Free (table : ExchangeTable) (word : UInt32) : Prop := word ≠ 0 ∧ word ∉ table.ids

instance (table : ExchangeTable) (word : UInt32) : Decidable (table.Free word) :=
  inferInstanceAs (Decidable (word ≠ 0 ∧ word ∉ table.ids))

/-- Draws ids that are not zero until one is not in use. -/
def Unused (table : ExchangeTable) : RelayId.Drawing := Until (· ∉ table.ids) (Until (· ≠ 0) Word)

variable {table : ExchangeTable} {words middle rest : List UInt32} {inner outer : RelayId}

private theorem unused_iff_until : table.Unused words inner rest ↔ Until table.Free Word words inner rest :=
  RelayId.until_until

theorem unused_iff : table.Unused words inner rest ↔
    ∃ skipped, words = skipped ++ inner :: rest ∧ (∀ word ∈ skipped, ¬ table.Free word) ∧ table.Free inner := by
  rw [unused_iff_until, RelayId.until_word_iff]

theorem unused_other_iff : Until (· ≠ inner) table.Unused words outer rest ↔
    ∃ passed, words = passed ++ outer :: rest ∧ (∀ word ∈ passed, table.Free word → word = inner) ∧
      table.Free outer ∧ outer ≠ inner := by
  rw [Unused, RelayId.until_until, RelayId.until_until, RelayId.until_word_iff]
  simp only [Free, ne_eq, not_and, Decidable.not_not, and_assoc, and_imp]

private theorem free_iff {word : UInt32} : (word ≠ 0 ∧ (!table.contains word) = true) ↔ table.Free word := by
  rw [Free, ← contains_iff_mem_ids, Bool.not_eq_true', Bool.not_eq_true]

private theorem free_other_iff {word : UInt32} :
    (word ≠ 0 ∧ (!table.contains word && decide (word ≠ inner)) = true) ↔ table.Free word ∧ word ≠ inner := by
  rw [Bool.and_eq_true, ← and_assoc, free_iff, decide_eq_true_eq]

private theorem picks_inner : RelayId.pick? (fun word => !table.contains word) words = some (inner, rest) ↔
    table.Unused words inner rest := by
  rw [RelayId.pick?_eq_some_iff, unused_iff_until]
  simp only [free_iff]

private theorem picks_outer :
    RelayId.pick? (fun word => !table.contains word && word ≠ inner) words = some (outer, rest) ↔
      Until (· ≠ inner) table.Unused words outer rest := by
  rw [RelayId.pick?_eq_some_iff, Unused, RelayId.until_until, RelayId.until_until]
  simp only [free_other_iff, Free, and_assoc]

/-- Both ids come out of the loops that they are drawn in, the outer one out of the words that the inner one leaves. -/
theorem freshIds?_eq_some_iff : table.freshIds? words = some (inner, outer, rest) ↔
    ∃ middle, table.Unused words inner middle ∧ Until (· ≠ inner) table.Unused middle outer rest := by
  constructor
  · intro fresh
    obtain ⟨⟨_, middle⟩, first, fresh⟩ := Option.bind_eq_some_iff.mp fresh
    obtain ⟨⟨_, _⟩, second, fresh⟩ := Option.bind_eq_some_iff.mp fresh
    cases fresh
    exact ⟨middle, picks_inner.mp first, picks_outer.mp second⟩
  · rintro ⟨middle, first, second⟩
    refine Option.bind_eq_some_iff.mpr ⟨(inner, middle), picks_inner.mpr first, ?_⟩
    exact Option.bind_eq_some_iff.mpr ⟨(outer, rest), picks_outer.mpr second, rfl⟩

/-- Two different free words are enough, wherever they are. -/
theorem freshIds?_isSome_iff : (table.freshIds? words).isSome = true ↔
    ∃ one ∈ words, ∃ other ∈ words, one ≠ other ∧ table.Free one ∧ table.Free other := by
  constructor
  · intro drawn
    obtain ⟨⟨inner, outer, rest⟩, fresh⟩ := Option.isSome_iff_exists.mp drawn
    obtain ⟨middle, first, second⟩ := freshIds?_eq_some_iff.mp fresh
    obtain ⟨skipped, rfl, _, free⟩ := unused_iff.mp first
    obtain ⟨passed, rfl, _, also, different⟩ := unused_other_iff.mp second
    exact ⟨inner, by simp, outer, by simp, different.symm, free, also⟩
  · rintro ⟨one, here, other, there, different, free, also⟩
    have some : (RelayId.pick? (fun word => !table.contains word) words).isSome = true :=
      RelayId.pick?_isSome_iff.mpr ⟨one, here, free_iff.mpr free⟩
    obtain ⟨⟨inner, middle⟩, first⟩ := Option.isSome_iff_exists.mp some
    obtain ⟨skipped, rfl, none, _⟩ := unused_iff.mp (picks_inner.mp first)
    -- One of the two is not the inner id, and it was not skipped either, so it is still to come.
    obtain ⟨word, member, spare, new⟩ :
        ∃ word ∈ skipped ++ inner :: middle, table.Free word ∧ word ≠ inner := by
      by_cases same : one = inner
      · exact ⟨other, there, also, fun equal => different (same.trans equal.symm)⟩
      · exact ⟨one, here, free, same⟩
    have later : word ∈ middle := by
      obtain early | rfl | late := by simpa using member
      · exact absurd spare (none word early)
      · exact absurd rfl new
      · exact late
    have more : (RelayId.pick? (fun word => !table.contains word && word ≠ inner) middle).isSome = true :=
      RelayId.pick?_isSome_iff.mpr ⟨word, later, free_other_iff.mpr ⟨spare, new⟩⟩
    obtain ⟨⟨outer, rest⟩, second⟩ := Option.isSome_iff_exists.mp more
    exact Option.isSome_iff_exists.mpr ⟨(inner, outer, rest),
      freshIds?_eq_some_iff.mpr ⟨middle, picks_inner.mp first, picks_outer.mp second⟩⟩

private theorem find?_of_unused {relayId : RelayId} (unused : relayId ∉ table.ids) :
    table.exchanges.find? (·.innerId = relayId) = none ∧ table.exchanges.find? (·.outerId = relayId) = none := by
  have none : ∀ exchange ∈ table.exchanges, exchange.innerId ≠ relayId ∧ exchange.outerId ≠ relayId := by
    intro exchange member
    constructor
    · exact fun same => unused (mem_ids.mpr ⟨exchange, member, .inl same.symm⟩)
    · exact fun same => unused (mem_ids.mpr ⟨exchange, member, .inr same.symm⟩)
  constructor
  · exact List.find?_eq_none.mpr fun exchange member => by simpa using (none exchange member).1
  · exact List.find?_eq_none.mpr fun exchange member => by simpa using (none exchange member).2

/-- A new exchange is found under its own ids, and nothing else is found differently. -/
theorem find?_insert {exchange : Exchange} (inner : exchange.innerId ∉ table.ids) (outer : exchange.outerId ∉ table.ids)
    (different : exchange.outerId ≠ exchange.innerId) (relayId : RelayId) :
    (table.insert exchange).find? relayId =
      if relayId = exchange.innerId then some (exchange, .outward)
      else if relayId = exchange.outerId then some (exchange, .inward)
      else table.find? relayId := by
  unfold find? insert
  simp only [List.find?_append]
  by_cases first : relayId = exchange.innerId
  · subst first
    simp [(find?_of_unused inner).1]
  · by_cases second : relayId = exchange.outerId
    · subst second
      simp [(find?_of_unused outer).1, (find?_of_unused outer).2, different.symm, different]
    · simp [first, second, Ne.symm first, Ne.symm second]

end ExchangeTable

namespace Agent
open RelayId (Until)

section
variable {agent after : Agent} {link : Link} {block : AssignBlock} {now : Micros} {words rest : List UInt32}

theorem addExchange?_eq_some_iff {result : Except Verdict (RelayId × RelayId)}
    (room : agent.exchangeCount < agent.config.maxExchanges.toNat) :
    agent.addExchange? link block now words = some (after, result, rest) ↔
      ∃ inner outer, agent.table.freshIds? words = some (inner, outer, rest) ∧ result = .ok (inner, outer) ∧
        after = { agent with
          table := agent.table.insert (Exchange.start inner outer link block agent.config.toAgentLimits now) } := by
  rw [addExchange?, if_neg (Nat.not_le.mpr room)]
  constructor
  · intro added
    obtain ⟨⟨inner, outer, rest⟩, fresh, added⟩ := Option.bind_eq_some_iff.mp added
    cases added
    exact ⟨inner, outer, fresh, rfl, rfl⟩
  · rintro ⟨inner, outer, fresh, rfl, rfl⟩
    exact Option.bind_eq_some_iff.mpr ⟨(inner, outer, rest), fresh, rfl⟩

/-- With room for an exchange, only its ids can be missing. -/
theorem addExchange?_isSome (room : agent.exchangeCount < agent.config.maxExchanges.toNat) :
    (agent.addExchange? link block now words).isSome = true ↔ (agent.table.freshIds? words).isSome = true := by
  rw [Option.isSome_iff_exists, Option.isSome_iff_exists]
  constructor
  · rintro ⟨⟨after, result, rest⟩, done⟩
    obtain ⟨inner, outer, fresh, _⟩ := (addExchange?_eq_some_iff room).mp done
    exact ⟨_, fresh⟩
  · rintro ⟨⟨inner, outer, rest⟩, fresh⟩
    exact ⟨_, (addExchange?_eq_some_iff room).mpr ⟨inner, outer, fresh, rfl, rfl⟩⟩

theorem addExchange?_ok_iff {inner outer : RelayId} (room : agent.exchangeCount < agent.config.maxExchanges.toNat) :
    agent.addExchange? link block now words = some (after, .ok (inner, outer), rest) ↔
      agent.table.freshIds? words = some (inner, outer, rest) ∧ after = { agent with
        table := agent.table.insert (Exchange.start inner outer link block agent.config.toAgentLimits now) } := by
  rw [addExchange?_eq_some_iff room]
  constructor
  · rintro ⟨_, _, fresh, same, rfl⟩
    cases same
    exact ⟨fresh, rfl⟩
  · rintro ⟨fresh, rfl⟩
    exact ⟨inner, outer, fresh, rfl, rfl⟩

end

/-- A full agent refuses an exchange and looks at no word. Any other one adds it as soon as two different words can be ids:
the first of them becomes the inner id, the next one that is another word the outer id, and the words up to there are used up.
That is what the loops inside loops draw. The exchange starts unbound with its points, its key and its flags; it is found
under its two ids, where nothing was found before. -/
theorem fresh_ids_drawn (agent : Agent) (link : Link) (block : AssignBlock) (now : Micros) (words : List UInt32) :
    let added := agent.addExchange? link block now words
    let table := agent.table
    let new (inner outer : RelayId) : Exchange :=
      { innerId := inner, outerId := outer, link := link, innerKey := block.key, outer := none
        points := agent.config.defaultPoints, retention := agent.config.relayRetention
        restrictedInterval := agent.config.restrictedInterval, allowOpenSesami := block.allowOpenSesami
        allowUnknown := block.allowUnknown, lastAccess := now, lastAdmitted := 0 }
    (agent.config.maxExchanges.toNat ≤ agent.exchangeCount → added = some (agent, .error .relayExchangeLimit, words)) ∧
    (agent.exchangeCount < agent.config.maxExchanges.toNat →
      (added.isSome = true ↔ ∃ one ∈ words, ∃ other ∈ words, one ≠ other ∧ table.Free one ∧ table.Free other) ∧
      (∀ after result rest, added = some (after, result, rest) ↔
        ∃ skipped inner passed outer, words = skipped ++ inner :: (passed ++ outer :: rest) ∧
          (∀ word ∈ skipped, ¬ table.Free word) ∧ table.Free inner ∧
          (∀ word ∈ passed, table.Free word → word = inner) ∧ table.Free outer ∧ outer ≠ inner ∧
          result = .ok (inner, outer) ∧ after = { agent with table := ⟨table.exchanges ++ [new inner outer]⟩ }) ∧
      (∀ inner outer rest, (∃ after, added = some (after, .ok (inner, outer), rest)) ↔
        ∃ middle, table.Unused words inner middle ∧ Until (· ≠ inner) table.Unused middle outer rest) ∧
      ∀ after inner outer rest, added = some (after, .ok (inner, outer), rest) → ∀ relayId, after.table.find? relayId =
        if relayId = inner then some (new inner outer, .outward)
        else if relayId = outer then some (new inner outer, .inward)
        else table.find? relayId) := by
  intro added table new
  refine ⟨fun full => if_pos full, fun room => ⟨?_, ?_, ?_, ?_⟩⟩
  · exact (addExchange?_isSome room).trans ExchangeTable.freshIds?_isSome_iff
  · intro after result rest
    rw [addExchange?_eq_some_iff room]
    simp only [ExchangeTable.freshIds?_eq_some_iff, ExchangeTable.unused_iff, ExchangeTable.unused_other_iff]
    constructor
    · rintro ⟨inner, outer, ⟨middle, ⟨skipped, rfl, before, free⟩, passed, rfl, between, also, different⟩, rfl, rfl⟩
      exact ⟨skipped, inner, passed, outer, rfl, before, free, between, also, different, rfl, rfl⟩
    · rintro ⟨skipped, inner, passed, outer, rfl, before, free, between, also, different, rfl, rfl⟩
      exact ⟨inner, outer, ⟨_, ⟨skipped, rfl, before, free⟩, passed, rfl, between, also, different⟩, rfl, rfl⟩
  · intro inner outer rest
    simp only [added, addExchange?_ok_iff room, ExchangeTable.freshIds?_eq_some_iff, exists_and_left, exists_eq, and_true]
    rfl
  · intro after inner outer rest done relayId
    obtain ⟨fresh, rfl⟩ := (addExchange?_ok_iff room).mp done
    obtain ⟨middle, first, second⟩ := ExchangeTable.freshIds?_eq_some_iff.mp fresh
    obtain ⟨_, _, _, free⟩ := ExchangeTable.unused_iff.mp first
    obtain ⟨_, _, _, also, different⟩ := ExchangeTable.unused_other_iff.mp second
    exact ExchangeTable.find?_insert free.2 also.2 different relayId

open Circuit (numberedHop) in
/-- Words that are zero, in use, or the inner id once more are passed over. -/
theorem fresh_ids_drawn_past :
    let used := closedExchange {}
    let agent : Agent := ⟨{}, ⟨[used]⟩, EndpointCache.empty 1, []⟩
    let block : AssignBlock := ⟨(numberedHop 2).key, true, false⟩
    let new := Exchange.start 7 8 (numberedHop 2).link block {} 2000000
    agent.addExchange? (numberedHop 2).link block 2000000 [0, used.outerId, 7, used.innerId, 7, 0, 8, 9] =
      some ({ agent with table := ⟨[used, new]⟩ }, .ok (7, 8), [9]) := by
  intro used agent block new
  obtain ⟨_, draws, _⟩ := (fresh_ids_drawn agent (numberedHop 2).link block 2000000
    [0, used.outerId, 7, used.innerId, 7, 0, 8, 9]).2 (by decide)
  have skipped : ∀ word ∈ [0, used.outerId], ¬ agent.table.Free word := by
    rw [List.forall_mem_cons, List.forall_mem_singleton]
    decide
  have passed : ∀ word ∈ [used.innerId, 7, 0], agent.table.Free word → word = 7 := by
    rw [List.forall_mem_cons, List.forall_mem_cons, List.forall_mem_singleton]
    decide
  apply (draws _ _ _).mpr
  exact ⟨[0, used.outerId], 7, [used.innerId, 7, 0], 8, rfl, skipped, by decide, passed, by decide, by decide, rfl, rfl⟩

end Agent
end OnionCircuit
