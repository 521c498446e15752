import Mathlib.Data.Finset.Card
import Mathlib.Data.Finset.Dedup
import OnionCircuit.Relay.EndpointCache

/-! What a cache knows of an address. Every touch puts one entry in front and leaves the entries of the others alone, as
long as there is room for them: an address stays while fewer others than fit were touched after it. -/

namespace OnionCircuit.EndpointCache

/-- Whether an address may send at a time. -/
def accepts (cache : EndpointCache) (address : Address) (time : Micros) : Bool := (cache.isUnrestricted address time).2

/-- Until when an address may send; the clock never shows the time zero. -/
def openUntil (cache : EndpointCache) (address : Address) : Micros :=
  ((cache.get? address).map CachedEndpoint.openUntil).getD 0

/-- The address touched last comes first. -/
def addresses (cache : EndpointCache) : List Address := cache.entries.map Prod.fst

/-- The cache after content has left for an address, with a deadline if the content is a connection packet. -/
def visit (cache : EndpointCache) (resolve : Resolver) (address : Address) (deadline? : Option Micros) : EndpointCache :=
  let found := (cache.lookup resolve address).cache
  match deadline? with
  | some deadline => (found.unrestrict address deadline).1
  | none => found

/-- A cache where no address is twice and one at least fits. -/
structure Tidy (cache : EndpointCache) : Prop where
  room : 0 < cache.capacity
  distinct : cache.addresses.Nodup

variable {cache : EndpointCache} {address other : Address} {entry : CachedEndpoint} {time : Micros}

theorem accepts_iff : cache.accepts address time = true ↔ ∃ entry, cache.get? address = some entry ∧ time < entry.openUntil := by
  unfold accepts isUnrestricted
  cases cache.get? address with
  | none => exact ⟨nofun, fun known => nomatch known⟩
  | some entry => simp only [decide_eq_true_eq, Option.some.injEq, exists_eq_left']

theorem accepts_iff_openUntil :
    cache.accepts address time = true ↔ cache.contains address = true ∧ time < cache.openUntil address := by
  rw [accepts_iff, contains, openUntil]
  cases cache.get? address with
  | none => exact ⟨nofun, nofun⟩
  | some entry => simp only [Option.some.injEq, exists_eq_left', Option.isSome_some, true_and, Option.map_some, Option.getD_some]

private theorem lookup_filter_ne (different : other ≠ address) (entries : List (Address × CachedEndpoint)) :
    (entries.filter (·.1 ≠ address)).lookup other = entries.lookup other := by
  induction entries with
  | nil => rfl
  | cons first entries ih =>
    obtain ⟨key, value⟩ := first
    by_cases same : key = address
    · have skipped : (other == key) = false := by rw [same]; exact beq_eq_false_iff_ne.mpr different
      rw [List.filter_cons_of_neg (by simpa using same), ih, List.lookup_cons, skipped]
    · rw [List.filter_cons_of_pos (by simpa using same), List.lookup_cons, List.lookup_cons, ih]

theorem get?_put_same (room : 0 < cache.capacity) : (cache.put address entry).get? address = some entry := by
  obtain ⟨places, full⟩ := Nat.exists_eq_succ_of_ne_zero (Nat.ne_of_gt room)
  simp only [get?, put, full, List.take_succ_cons, List.lookup_cons_self]

theorem openUntil_of_not_contains (unknown : cache.contains address = false) : cache.openUntil address = 0 := by
  rw [openUntil, Option.isNone_iff_eq_none.mp (Option.isSome_eq_false_iff.mp unknown)]
  rfl

theorem openUntil_eq (known : cache.get? address = some entry) : cache.openUntil address = entry.openUntil := by
  rw [openUntil, known]
  rfl

theorem accepts_put_same (room : 0 < cache.capacity) :
    (cache.put address entry).accepts address time = decide (time < entry.openUntil) := by
  rw [accepts, isUnrestricted, get?_put_same room]

/-- What is still known of another address is what was known before. -/
theorem get?_put_other (different : other ≠ address) {kept : CachedEndpoint}
    (known : (cache.put address entry).get? other = some kept) : cache.get? other = some kept := by
  have skipped : (other == address) = false := beq_eq_false_iff_ne.mpr different
  have longer : List.lookup other ((address, entry) :: cache.entries.filter (·.1 ≠ address)) = some kept := by
    rw [← List.take_append_drop cache.capacity ((address, entry) :: cache.entries.filter (·.1 ≠ address)), List.lookup_append]
    change ((cache.put address entry).get? other).or _ = some kept
    rw [known, Option.some_or]
  rw [List.lookup_cons, skipped, lookup_filter_ne different] at longer
  exact longer

theorem accepts_of_put_other (different : other ≠ address) (accepts : (cache.put address entry).accepts other time = true) :
    cache.accepts other time = true := by
  obtain ⟨kept, known, early⟩ := accepts_iff.mp accepts
  exact accepts_iff.mpr ⟨kept, get?_put_other different known, early⟩

theorem put_put (cache : EndpointCache) (address : Address) (first second : CachedEndpoint) :
    (cache.put address first).put address second = cache.put address second := by
  obtain ⟨capacity, entries⟩ := cache
  simp only [put, EndpointCache.mk.injEq, true_and]
  cases capacity with
  | zero => rfl
  | succ places =>
    have kept : ((entries.filter (·.1 ≠ address)).take places).filter (·.1 ≠ address) =
        (entries.filter (·.1 ≠ address)).take places := by
      apply List.filter_eq_self.mpr
      intro pair member
      exact (List.mem_filter.mp (List.mem_of_mem_take member)).2
    simp only [List.take_succ_cons]
    rw [List.filter_cons_of_neg (by simp), kept, List.take_take, Nat.min_self]

theorem addresses_put (cache : EndpointCache) (address : Address) (entry : CachedEndpoint) :
    (cache.put address entry).addresses = (address :: cache.addresses.filter (· ≠ address)).take cache.capacity := by
  simp only [addresses, put, List.map_take, List.map_cons, List.filter_map]
  rfl

theorem Tidy.put (tidy : cache.Tidy) (address : Address) (entry : CachedEndpoint) : (cache.put address entry).Tidy := by
  refine ⟨tidy.room, ?_⟩
  rw [addresses_put]
  refine List.Nodup.sublist (List.take_sublist _ _) (List.nodup_cons.mpr ⟨?_, tidy.distinct.sublist List.filter_sublist⟩)
  simp

theorem tidy_empty (capacity : Nat) : (empty capacity).Tidy :=
  ⟨Nat.lt_of_lt_of_le Nat.one_pos (Nat.le_max_right _ _), List.nodup_nil⟩

/-- Two caches that know the same, and differ at most in how recent an address is. -/
structure SameBut (before after : EndpointCache) (address : Address) : Prop where
  capacity : after.capacity = before.capacity
  endpoints : ∀ other, after.get? other = before.get? other
  order : after.entries.filter (·.1 ≠ address) = before.entries.filter (·.1 ≠ address)

theorem sameBut_refl (cache : EndpointCache) (address : Address) : SameBut cache cache address := ⟨rfl, fun _ => rfl, rfl⟩

/-- What is cached already pushes nothing out. -/
theorem sameBut_put (fits : cache.entries.length ≤ cache.capacity) (known : cache.get? address = some entry) :
    SameBut cache (cache.put address entry) address := by
  have fewer : (cache.entries.filter (·.1 ≠ address)).length < cache.entries.length := by
    obtain ⟨front, back, split, _⟩ := List.lookup_eq_some_iff.mp known
    refine List.length_filter_lt_length_iff_exists.mpr ⟨(address, entry), ?_, by simp⟩
    rw [split]
    simp
  have whole : (cache.put address entry).entries = (address, entry) :: cache.entries.filter (·.1 ≠ address) := by
    rw [put, List.take_of_length_le]
    rw [List.length_cons]
    omega
  refine ⟨rfl, fun other => ?_, ?_⟩
  · rw [get?, whole, List.lookup_cons]
    by_cases same : other = address
    · simp only [same, beq_self_eq_true]
      exact known.symm
    · simp only [beq_eq_false_iff_ne.mpr same]
      exact lookup_filter_ne same _
  · rw [whole, List.filter_cons_of_neg (by simp), List.filter_filter]
    simp only [Bool.and_self]

section Touch
variable (cache : EndpointCache) (address : Address)

/-- A visit touches its address if it is cached or resolves, and nothing otherwise. -/
theorem visit_eq (room : 0 < cache.capacity) (resolve : Resolver) (deadline? : Option Micros) :
    cache.visit resolve address deadline? =
    match (cache.lookup resolve address).endpoint with
    | none => cache
    | some endpoint =>
      cache.put address ⟨endpoint, (deadline?.map (max (cache.openUntil address))).getD (cache.openUntil address)⟩ := by
  have touched (entry : CachedEndpoint) : (cache.put address entry).get? address = some entry := get?_put_same room
  unfold visit lookup openUntil
  cases known : cache.get? address with
  | some entry =>
    cases deadline? with
    | none => rfl
    | some deadline =>
      simp only [unrestrict, touched, put_put]
      rfl
  | none =>
    cases resolve address with
    | none =>
      cases deadline? with
      | none => rfl
      | some deadline => simp only [unrestrict, known]
    | some endpoint =>
      cases deadline? with
      | none => rfl
      | some deadline =>
        simp only [unrestrict, touched, put_put]
        rfl

theorem isUnrestricted_eq (time : Micros) : (cache.isUnrestricted address time).1 =
    match cache.get? address with
    | none => cache
    | some entry => cache.put address entry := by
  unfold isUnrestricted
  cases cache.get? address <;> rfl

theorem sameBut_isUnrestricted (fits : cache.entries.length ≤ cache.capacity) (time : Micros) :
    SameBut cache (cache.isUnrestricted address time).1 address := by
  rw [isUnrestricted_eq]
  cases known : cache.get? address with
  | none => exact sameBut_refl cache address
  | some entry => exact sameBut_put fits known

theorem fits_put (entry : CachedEndpoint) : (cache.put address entry).entries.length ≤ (cache.put address entry).capacity := by
  rw [put, List.length_take]
  exact Nat.min_le_left _ _

end Touch

/-- An address is cached, and only some others were touched after it. -/
def Recent (cache : EndpointCache) (address : Address) (later : List Address) : Prop :=
  ∃ front entry back, cache.entries = front ++ (address, entry) :: back ∧
    ∀ other ∈ front.map Prod.fst, other ∈ later ∧ other ≠ address

variable {later : List Address}

theorem recent_put_same (room : 0 < cache.capacity) : (cache.put address entry).Recent address later := by
  obtain ⟨places, full⟩ := Nat.exists_eq_succ_of_ne_zero (Nat.ne_of_gt room)
  refine ⟨[], entry, (cache.entries.filter (·.1 ≠ address)).take places, ?_, fun _ member => nomatch member⟩
  simp only [put, full, List.take_succ_cons, List.nil_append]

private theorem length_le_card {touched : List Address} (distinct : touched.Nodup)
    (mentioned : ∀ other ∈ touched, other ∈ later ∧ other ≠ address) :
    touched.length ≤ (later.toFinset.erase address).card := by
  rw [← List.toFinset_card_of_nodup distinct]
  apply Finset.card_le_card
  intro other member
  obtain ⟨inside, different⟩ := mentioned other (List.mem_toFinset.mp member)
  exact Finset.mem_erase.mpr ⟨different, List.mem_toFinset.mpr inside⟩

private theorem lookup_behind {front : List (Address × CachedEndpoint)}
    (others : ∀ other ∈ front.map Prod.fst, other ∈ later ∧ other ≠ address) (back : List (Address × CachedEndpoint)) :
    (front ++ (address, entry) :: back).lookup address = some entry := by
  refine List.lookup_eq_some_iff.mpr ⟨front, back, rfl, fun pair member => ?_⟩
  exact bne_iff_ne.mpr (Ne.symm (others _ (List.mem_map_of_mem member)).2)

theorem Recent.cached (recent : cache.Recent address later) : cache.contains address = true := by
  obtain ⟨front, entry, back, split, after⟩ := recent
  rw [contains, get?, split, lookup_behind after]
  rfl

/-- A touch of another address leaves an address where it is, if with that one there are fewer others than fit. -/
theorem Recent.put (recent : cache.Recent address later) (tidy : cache.Tidy) (different : other ≠ address)
    (mentioned : other ∈ later) (few : (later.toFinset.erase address).card < cache.capacity) :
    (cache.put other entry).Recent address later ∧ (cache.put other entry).get? address = cache.get? address := by
  obtain ⟨front, kept, back, split, after⟩ := recent
  obtain ⟨ahead, moved⟩ : ∃ ahead, ahead = (other, entry) :: front.filter (·.1 ≠ other) := ⟨_, rfl⟩
  have those : ∀ touched ∈ ahead.map Prod.fst, touched ∈ later ∧ touched ≠ address := by
    intro touched member
    rw [moved, List.map_cons, List.mem_cons] at member
    obtain rfl | old := member
    · exact ⟨mentioned, different⟩
    · obtain ⟨pair, inside, rfl⟩ := List.mem_map.mp old
      exact after _ (List.mem_map_of_mem (List.mem_filter.mp inside).1)
  have distinct : (ahead.map Prod.fst).Nodup := by
    have before := tidy.distinct
    rw [addresses, split, List.map_append] at before
    rw [moved, List.map_cons, List.nodup_cons]
    refine ⟨?_, (List.nodup_append.mp before).1.sublist (List.filter_sublist.map _)⟩
    intro again
    obtain ⟨pair, inside, same⟩ := List.mem_map.mp again
    exact of_decide_eq_true (List.mem_filter.mp inside).2 same
  have fits : ahead.length < cache.capacity := by
    have bound := length_le_card distinct those
    rw [List.length_map] at bound
    exact Nat.lt_of_le_of_lt bound few
  -- What is in front of the address has moved by at most one place, so the cut falls behind it.
  have entries : ∃ rest, (cache.put other entry).entries = ahead ++ (address, kept) :: rest := by
    have stays : ((address, kept) :: back).filter (·.1 ≠ other) = (address, kept) :: back.filter (·.1 ≠ other) :=
      List.filter_cons_of_pos (decide_eq_true (Ne.symm different))
    obtain ⟨spare, room⟩ : ∃ spare, cache.capacity - ahead.length = spare + 1 := ⟨cache.capacity - ahead.length - 1, by omega⟩
    refine ⟨(back.filter (·.1 ≠ other)).take spare, ?_⟩
    simp only [EndpointCache.put, split, List.filter_append]
    rw [stays, ← List.cons_append, ← moved, List.take_append,
      List.take_of_length_le (Nat.le_of_lt fits), room, List.take_succ_cons]
  obtain ⟨rest, now⟩ := entries
  refine ⟨⟨ahead, kept, rest, now, those⟩, ?_⟩
  rw [get?, get?, now, split, lookup_behind those, lookup_behind after]

end OnionCircuit.EndpointCache
