import OnionCircuit.Relay.Table

/-! The ids of a table. As long as no id is used twice, each of them leads to its own
exchange, and a newer version of one exchange leaves all others alone. -/

namespace OnionCircuit

/-- The id under which packets that go in a direction find an exchange. -/
def Exchange.idFor (exchange : Exchange) : Direction → RelayId
  | .outward => exchange.innerId
  | .inward => exchange.outerId

namespace ExchangeTable

def ids (table : ExchangeTable) : List RelayId := table.exchanges.flatMap fun exchange => [exchange.innerId, exchange.outerId]

/-- No id is zero, and none is used twice. -/
structure Sound (table : ExchangeTable) : Prop where
  distinct : table.ids.Nodup
  named : 0 ∉ table.ids

variable {table : ExchangeTable} {exchange : Exchange}

theorem mem_ids {relayId : RelayId} :
    relayId ∈ table.ids ↔ ∃ exchange ∈ table.exchanges, relayId = exchange.innerId ∨ relayId = exchange.outerId := by
  simp only [ids, List.mem_flatMap, List.mem_cons, List.not_mem_nil, or_false]

/-- What is found under an id has it as its inner or its outer one. -/
theorem mem_of_find? {relayId : RelayId} {direction : Direction} (found : table.find? relayId = some (exchange, direction)) :
    exchange ∈ table.exchanges ∧ relayId = exchange.idFor direction := by
  unfold find? at found
  split at found
  next owner first =>
    cases found
    have same := List.find?_some first
    simp only [decide_eq_true_eq] at same
    exact ⟨List.mem_of_find?_eq_some first, same.symm⟩
  next =>
    obtain ⟨owner, first, same⟩ := Option.map_eq_some_iff.mp found
    cases same
    have same := List.find?_some first
    simp only [decide_eq_true_eq] at same
    exact ⟨List.mem_of_find?_eq_some first, same.symm⟩

theorem mem_of_get? {relayId : RelayId} (got : table.get? relayId = some exchange) : exchange ∈ table.exchanges := by
  obtain ⟨⟨owner, direction⟩, found, same⟩ := Option.map_eq_some_iff.mp got
  exact same ▸ (mem_of_find? found).1

theorem contains_iff_mem_ids {relayId : RelayId} : table.contains relayId = true ↔ relayId ∈ table.ids := by
  rw [mem_ids, contains, Option.isSome_iff_exists]
  constructor
  · rintro ⟨⟨owner, direction⟩, found⟩
    obtain ⟨member, same⟩ := mem_of_find? found
    cases direction with
    | outward => exact ⟨owner, member, Or.inl same⟩
    | inward => exact ⟨owner, member, Or.inr same⟩
  · rintro ⟨owner, member, same⟩
    unfold find?
    split
    next => exact ⟨_, rfl⟩
    next missing =>
      obtain rfl | rfl := same
      · exact absurd (List.find?_eq_none.mp missing owner member) (by simp)
      · have found : (table.exchanges.find? fun other => decide (other.outerId = owner.outerId)).isSome := by
          rw [List.find?_isSome]
          exact ⟨owner, member, by simp⟩
        obtain ⟨other, first⟩ := Option.isSome_iff_exists.mp found
        exact ⟨(other, .inward), by rw [first]; rfl⟩

private theorem distinct_iff : table.ids.Nodup ↔ (∀ exchange ∈ table.exchanges, exchange.innerId ≠ exchange.outerId) ∧
    table.exchanges.Pairwise fun one two =>
      ∀ id ∈ [one.innerId, one.outerId], ∀ other ∈ [two.innerId, two.outerId], id ≠ other := by
  simp only [ids, List.Nodup, List.pairwise_flatMap, List.pairwise_cons, List.mem_singleton, forall_eq, List.not_mem_nil,
    false_implies, implies_true, List.Pairwise.nil, and_true]

theorem Sound.inner_ne_outer (sound : table.Sound) (member : exchange ∈ table.exchanges) :
    exchange.innerId ≠ exchange.outerId := (distinct_iff.mp sound.distinct).1 exchange member

/-- Two exchanges of a sound table that share an id are the same. -/
theorem Sound.eq_of_shared (sound : table.Sound) {other : Exchange} {relayId : RelayId} (member : exchange ∈ table.exchanges)
    (also : other ∈ table.exchanges) (one : relayId ∈ [exchange.innerId, exchange.outerId])
    (two : relayId ∈ [other.innerId, other.outerId]) : exchange = other := by
  obtain ⟨first, inside, rfl⟩ := List.getElem_of_mem member
  obtain ⟨second, within, rfl⟩ := List.getElem_of_mem also
  have apart := List.pairwise_iff_getElem.mp (distinct_iff.mp sound.distinct).2
  obtain before | same | after := Nat.lt_trichotomy first second
  · exact absurd rfl (apart first second inside within before relayId one relayId two)
  · subst same
    rfl
  · exact absurd rfl (apart second first within inside after relayId two relayId one)

private theorem Sound.find?_shared (sound : table.Sound) {relayId : RelayId} (member : exchange ∈ table.exchanges)
    (own : relayId ∈ [exchange.innerId, exchange.outerId]) :
    ∃ direction, table.find? relayId = some (exchange, direction) ∧
      relayId = exchange.idFor direction := by
  have used : table.contains relayId = true :=
    contains_iff_mem_ids.mpr (mem_ids.mpr ⟨exchange, member, by simpa using own⟩)
  obtain ⟨⟨owner, direction⟩, found⟩ := Option.isSome_iff_exists.mp used
  obtain ⟨present, same⟩ := mem_of_find? found
  have shared : relayId ∈ [owner.innerId, owner.outerId] := by
    cases direction <;> simp [same, Exchange.idFor]
  obtain rfl := sound.eq_of_shared present member shared own
  exact ⟨direction, found, same⟩

theorem Sound.find?_inner (sound : table.Sound) (member : exchange ∈ table.exchanges) :
    table.find? exchange.innerId = some (exchange, .outward) := by
  obtain ⟨direction, found, same⟩ := sound.find?_shared member List.mem_cons_self
  cases direction with
  | outward => exact found
  | inward => exact absurd same (sound.inner_ne_outer member)

theorem Sound.find?_outer (sound : table.Sound) (member : exchange ∈ table.exchanges) :
    table.find? exchange.outerId = some (exchange, .inward) := by
  obtain ⟨direction, found, same⟩ := sound.find?_shared member (List.mem_cons_of_mem _ List.mem_cons_self)
  cases direction with
  | outward => exact absurd same.symm (sound.inner_ne_outer member)
  | inward => exact found

theorem sound_empty : empty.Sound := ⟨List.nodup_nil, List.not_mem_nil⟩

/-- A new exchange has to bring two ids that nobody has. -/
theorem Sound.insert (sound : table.Sound) (inner : exchange.innerId ∉ table.ids) (outer : exchange.outerId ∉ table.ids)
    (different : exchange.innerId ≠ exchange.outerId) (named : exchange.innerId ≠ 0 ∧ exchange.outerId ≠ 0) :
    (table.insert exchange).Sound := by
  have more : (table.insert exchange).ids = table.ids ++ [exchange.innerId, exchange.outerId] := by
    simp only [ids, ExchangeTable.insert, List.flatMap_append, List.flatMap_cons, List.flatMap_nil, List.append_nil]
  constructor
  · rw [more, List.nodup_append]
    refine ⟨sound.distinct, by simpa using different, ?_⟩
    intro old member new fresh same
    subst same
    obtain rfl | rfl : old = exchange.innerId ∨ old = exchange.outerId := by simpa using fresh
    · exact inner member
    · exact outer member
  · rw [more, List.mem_append]
    rintro (old | new)
    · exact sound.named old
    · obtain zero | zero : (0 : RelayId) = exchange.innerId ∨ (0 : RelayId) = exchange.outerId := by simpa using new
      · exact named.1 zero.symm
      · exact named.2 zero.symm

theorem mem_replace {other : Exchange} (member : other ∈ (table.replace exchange).exchanges) :
    other = exchange ∨ other ∈ table.exchanges ∧ other.innerId ≠ exchange.innerId := by
  obtain ⟨old, present, same⟩ := List.mem_map.mp member
  split at same
  next => exact Or.inl same.symm
  next different =>
    subst same
    exact Or.inr ⟨present, different⟩

theorem mem_replace_of_ne {other : Exchange} (member : other ∈ table.exchanges) (different : other.innerId ≠ exchange.innerId) :
    other ∈ (table.replace exchange).exchanges := List.mem_map.mpr ⟨other, member, if_neg different⟩

theorem Sound.replace (sound : table.Sound) {old : Exchange} (present : old ∈ table.exchanges)
    (inner : exchange.innerId = old.innerId) (outer : exchange.outerId = old.outerId) : (table.replace exchange).Sound := by
  have same : (table.replace exchange).ids = table.ids := by
    simp only [ids, ExchangeTable.replace, List.flatMap_map]
    rw [List.flatMap_def, List.flatMap_def]
    congr 1
    apply List.map_congr_left
    intro other member
    split
    next shared =>
      have first : other.innerId ∈ [old.innerId, old.outerId] := by
        rw [shared, inner]
        exact List.mem_cons_self
      rw [sound.eq_of_shared member present List.mem_cons_self first, inner, outer]
    next => rfl
  exact ⟨same ▸ sound.distinct, same ▸ sound.named⟩

theorem mem_erase {other : Exchange} :
    other ∈ (table.erase exchange).exchanges ↔ other ∈ table.exchanges ∧ other.innerId ≠ exchange.innerId := by
  simp only [ExchangeTable.erase, List.mem_filter, decide_eq_true_eq]

theorem Sound.erase (sound : table.Sound) : (table.erase exchange).Sound := by
  obtain ⟨own, apart⟩ := distinct_iff.mp sound.distinct
  refine ⟨distinct_iff.mpr ⟨?_, apart.sublist List.filter_sublist⟩, ?_⟩
  · intro other member
    exact own other (mem_erase.mp member).1
  · intro zero
    obtain ⟨other, member, same⟩ := mem_ids.mp zero
    exact sound.named (mem_ids.mpr ⟨other, (mem_erase.mp member).1, same⟩)

end ExchangeTable
end OnionCircuit
