import OnionCircuit.Proofs.CacheRecency

/-! What a cache answers, told from what was asked of it before. It knows the addresses that were touched last, as many as fit.
Of each it knows the endpoint that it was put in with and the latest time that it was allowed since then; an address that
was pushed out and comes back starts anew. -/

namespace OnionCircuit

/-- Every lookup may come with another resolver. -/
inductive CacheCall
  | lookup (resolve : Resolver) (address : Address)
  | unrestrict (address : Address) (deadline : Micros)
  | isUnrestricted (address : Address) (time : Micros)
  | contains (address : Address)
  | size
  | clear

namespace CacheCall

def isClear : CacheCall → Bool
  | .clear => true
  | _ => false

/-- Until when a call lets an address send. -/
def deadline? (call : CacheCall) (address : Address) : Option Micros :=
  match call with
  | .unrestrict other deadline => if other = address then some deadline else none
  | _ => none

end CacheCall

namespace EndpointCache

def after (cache : EndpointCache) : CacheCall → EndpointCache
  | .lookup resolve address => (cache.lookup resolve address).cache
  | .unrestrict address deadline => (cache.unrestrict address deadline).1
  | .isUnrestricted address time => (cache.isUnrestricted address time).1
  | .contains _ | .size => cache
  | .clear => cache.clear

def run (cache : EndpointCache) (calls : List CacheCall) : EndpointCache := calls.foldl after cache

/-- The calls of a run, each with the cache as it was before. -/
def history (cache : EndpointCache) : List CacheCall → List (EndpointCache × CacheCall)
  | [] => []
  | call :: calls => (cache, call) :: history (cache.after call) calls

/-- A lookup touches what it finds, in the cache or elsewhere; the other calls touch what is cached or nothing. -/
def touched? (cache : EndpointCache) : CacheCall → Option Address
  | .lookup resolve address => if (cache.lookup resolve address).endpoint.isSome then some address else none
  | .unrestrict address _ | .isUnrestricted address _ => if cache.contains address then some address else none
  | .contains _ | .size | .clear => none

/-- The endpoint that a call puts an address in with, if it was not cached. -/
def inserted? (cache : EndpointCache) (call : CacheCall) (address : Address) : Option Endpoint :=
  match call with
  | .lookup resolve other => if other = address ∧ cache.contains address = false then resolve address else none
  | _ => none

section Past
variable (past : List (EndpointCache × CacheCall)) (address : Address)

/-! What the past tells, where the latest call comes first. -/

/-- The addresses that were touched since the cache was cleared. -/
def touches : List Address :=
  (past.takeWhile fun moment => !moment.2.isClear).filterMap fun moment => moment.1.touched? moment.2

/-- The endpoint that an address was last put in with. -/
def insertion? : Option Endpoint := past.findSome? fun moment => moment.1.inserted? moment.2 address

/-- What an address was allowed since it was last put in. -/
def deadlines : List Micros :=
  (past.takeWhile fun moment => (moment.1.inserted? moment.2 address).isNone).filterMap fun moment =>
    moment.2.deadline? address

end Past

/-- A call puts one entry in front, or clears the cache, or leaves it as it is. -/
inductive Handles (cache : EndpointCache) (call : CacheCall) : EndpointCache → Prop
  | nothing (keeps : call.isClear = false) (untouched : cache.touched? call = none)
      (quiet : ∀ address, cache.contains address = true →
        cache.inserted? call address = none ∧ call.deadline? address = none) : Handles cache call cache
  | clears (clears : call.isClear = true) : Handles cache call cache.clear
  | inserts (address : Address) (endpoint : Endpoint) (keeps : call.isClear = false)
      (touched : cache.touched? call = some address) (resolved : cache.inserted? call address = some endpoint)
      (others : ∀ other, other ≠ address → cache.inserted? call other = none ∧ call.deadline? other = none) :
      Handles cache call (cache.put address ⟨endpoint, 0⟩)
  | renews (address : Address) (entry : CachedEndpoint) (known : cache.get? address = some entry)
      (keeps : call.isClear = false) (touched : cache.touched? call = some address)
      (old : cache.inserted? call address = none)
      (others : ∀ other, other ≠ address → cache.inserted? call other = none ∧ call.deadline? other = none) :
      Handles cache call (cache.put address
        { entry with openUntil := ((call.deadline? address).map (max entry.openUntil)).getD entry.openUntil })

/-- The cache holds what the past says. -/
structure Recalls (cache : EndpointCache) (past : List (EndpointCache × CacheCall)) : Prop where
  recent : cache.addresses = (touches past).eraseDups.take cache.capacity
  known : ∀ address entry, cache.get? address = some entry → insertion? past address = some entry.endpoint ∧
    ∀ time, time < entry.openUntil ↔ time < (deadlines past address).foldr max 0

section Distinct
variable {α : Type} [BEq α]

private theorem eraseDups_cons_ne (item : α) (items : List α) :
    (item :: items).eraseDups = item :: (items.filter (· != item)).eraseDups := List.eraseDups_cons

private theorem take_erase_take (item : α) (items : List α) (places : Nat) :
    ((items.take (places + 1)).erase item).take places = (items.erase item).take places := by
  induction items generalizing places with
  | nil => rfl
  | cons first items ih =>
    rw [List.take_succ_cons, List.erase_cons, List.erase_cons]
    split
    · rw [List.take_take, Nat.min_self]
    · cases places with
      | zero => rfl
      | succ places => rw [List.take_succ_cons, List.take_succ_cons, ih]

variable [LawfulBEq α]

private theorem eraseDups_filter_ne (item : α) (items : List α) :
    (items.filter (· != item)).eraseDups = items.eraseDups.filter (· != item) := by
  -- What is left behind the first item is shorter, but it is not the tail.
  induction size : items.length using Nat.strongRecOn generalizing items with
  | ind length ih =>
    cases items with
    | nil => rfl
    | cons first items =>
      have shorter (others : List α) (part : others.Sublist items) :
          (others.filter (· != item)).eraseDups = others.eraseDups.filter (· != item) := by
        refine ih others.length ?_ others rfl
        rw [← size, List.length_cons]
        exact Nat.lt_succ_of_le part.length_le
      rw [eraseDups_cons_ne]
      by_cases same : first = item
      · have left : ∀ other ∈ (items.filter (· != item)).eraseDups, (other != item) = true := by
          intro other member
          exact (List.mem_filter.mp (List.mem_eraseDups.mp member)).2
        rw [same, List.filter_cons_of_neg (by simp), List.filter_cons_of_neg (by simp), List.filter_eq_self.mpr left]
      · have kept : (first != item) = true := bne_iff_ne.mpr same
        rw [List.filter_cons, List.filter_cons, if_pos kept, if_pos kept, eraseDups_cons_ne,
          ← shorter (items.filter (· != first)) List.filter_sublist, List.filter_filter, List.filter_filter]
        simp only [Bool.and_comm]

private theorem nodup_eraseDups (items : List α) : items.eraseDups.Nodup := by
  induction items with
  | nil => exact List.nodup_nil
  | cons first items ih =>
    rw [eraseDups_cons_ne, eraseDups_filter_ne, List.nodup_cons]
    constructor
    · simp
    · exact ih.sublist List.filter_sublist

/-- To bring an item to the front, it is enough to look at the places in front. -/
private theorem take_eraseDups_cons (item : α) (items : List α) (places : Nat) :
    (item :: items).eraseDups.take places = (item :: (items.eraseDups.take places).filter (· != item)).take places := by
  have distinct := nodup_eraseDups items
  have front : (items.eraseDups.take places).Nodup := distinct.sublist (List.take_sublist _ _)
  rw [eraseDups_cons_ne, eraseDups_filter_ne, ← distinct.erase_eq_filter, ← front.erase_eq_filter]
  cases places with
  | zero => rfl
  | succ places => rw [List.take_succ_cons, List.take_succ_cons, take_erase_take]

end Distinct

section Step
variable {cache : EndpointCache} {past : List (EndpointCache × CacheCall)} {call : CacheCall} {address : Address}

theorem contains_iff_mem : cache.contains address = true ↔ address ∈ cache.addresses := by
  rw [contains, get?, List.lookup_isSome_iff, addresses, List.mem_map]
  constructor
  · rintro ⟨pair, member, same⟩
    exact ⟨pair, member, (beq_iff_eq.mp same).symm⟩
  · rintro ⟨pair, member, rfl⟩
    exact ⟨pair, member, beq_self_eq_true _⟩

theorem contains_of_get? {entry : CachedEndpoint} (known : cache.get? address = some entry) : cache.contains address = true := by
  rw [contains, known, Option.isSome_some]

theorem contains_of_get?_none (unknown : cache.get? address = none) : cache.contains address = false := by
  rw [contains, unknown, Option.isSome_none]

theorem get?_of_not_contains (unknown : cache.contains address = false) : cache.get? address = none :=
  Option.isNone_iff_eq_none.mp (Option.isSome_eq_false_iff.mp unknown)

theorem inserted?_of_contains (known : cache.contains address = true) (call : CacheCall) :
    cache.inserted? call address = none := by
  cases call with
  | lookup resolve other =>
    apply if_neg
    rintro ⟨_, unknown⟩
    exact Bool.false_ne_true (unknown.symm.trans known)
  | _ => rfl

theorem after_handles (cache : EndpointCache) (call : CacheCall) : cache.Handles call (cache.after call) := by
  cases call with
  | lookup resolve address =>
    change cache.Handles _ (cache.lookup resolve address).cache
    have others (other : Address) (different : other ≠ address) :
        cache.inserted? (.lookup resolve address) other = none ∧ (CacheCall.lookup resolve address).deadline? other = none :=
      ⟨if_neg fun both => different both.1.symm, rfl⟩
    cases known : cache.get? address with
    | some entry =>
      have found : cache.lookup resolve address = ⟨some entry.endpoint, cache.put address entry, false⟩ := by
        simp only [lookup, known]
      rw [found]
      refine Handles.renews address entry known rfl ?_ (inserted?_of_contains (contains_of_get? known) _) others
      simp only [touched?, found, Option.isSome_some, if_true]
    | none =>
      have unknown := contains_of_get?_none known
      cases resolved : resolve address with
      | some endpoint =>
        have found : cache.lookup resolve address = ⟨some endpoint, cache.put address ⟨endpoint, 0⟩, true⟩ := by
          simp only [lookup, known, resolved]
        rw [found]
        refine Handles.inserts address endpoint rfl ?_ ?_ others
        · simp only [touched?, found, Option.isSome_some, if_true]
        · simp only [inserted?, unknown, resolved, and_self, if_true]
      | none =>
        have found : cache.lookup resolve address = ⟨none, cache, true⟩ := by simp only [lookup, known, resolved]
        rw [found]
        refine Handles.nothing rfl ?_ fun other cached => ⟨inserted?_of_contains cached _, rfl⟩
        simp only [touched?, found, Option.isSome_none, Bool.false_eq_true, if_false]
  | unrestrict address deadline =>
    change cache.Handles _ (cache.unrestrict address deadline).1
    unfold unrestrict
    cases known : cache.get? address with
    | some entry =>
      have own : (CacheCall.unrestrict address deadline).deadline? address = some deadline := if_pos rfl
      have touched : cache.touched? (.unrestrict address deadline) = some address := if_pos (contains_of_get? known)
      have renews := Handles.renews address entry known rfl touched rfl fun _ different => ⟨rfl, if_neg different.symm⟩
      rw [own] at renews
      exact renews
    | none =>
      have unknown := contains_of_get?_none known
      apply Handles.nothing rfl
      · exact if_neg (Bool.eq_false_iff.mp unknown)
      · intro other cached
        refine ⟨rfl, if_neg ?_⟩
        rintro rfl
        exact Bool.false_ne_true (unknown.symm.trans cached)
  | isUnrestricted address time =>
    change cache.Handles (.isUnrestricted address time) (cache.isUnrestricted address time).1
    unfold isUnrestricted
    cases known : cache.get? address with
    | some entry =>
      apply Handles.renews address entry known rfl
      · exact if_pos (contains_of_get? known)
      · rfl
      · exact fun _ _ => ⟨rfl, rfl⟩
    | none =>
      apply Handles.nothing rfl
      · exact if_neg (Bool.eq_false_iff.mp (contains_of_get?_none known))
      · exact fun _ _ => ⟨rfl, rfl⟩
  | contains address => exact .nothing rfl rfl fun _ _ => ⟨rfl, rfl⟩
  | size => exact .nothing rfl rfl fun _ _ => ⟨rfl, rfl⟩
  | clear => exact .clears rfl

theorem Handles.capacity {later : EndpointCache} (handles : cache.Handles call later) : later.capacity = cache.capacity := by
  cases handles <;> rfl

private theorem touches_cons (keeps : call.isClear = false) :
    touches ((cache, call) :: past) = (cache.touched? call).toList ++ touches past := by
  rw [touches, List.takeWhile_cons_of_pos (by simp [keeps]), List.filterMap_cons]
  cases cache.touched? call <;> rfl

private theorem insertion?_cons (cache : EndpointCache) (call : CacheCall) (past : List (EndpointCache × CacheCall))
    (address : Address) :
    insertion? ((cache, call) :: past) address = (cache.inserted? call address).or (insertion? past address) := by
  rw [insertion?, List.findSome?_cons]
  cases cache.inserted? call address <;> rfl

private theorem deadlines_cons_new {endpoint : Endpoint} (new : cache.inserted? call address = some endpoint) :
    deadlines ((cache, call) :: past) address = [] := by
  rw [deadlines, List.takeWhile_cons_of_neg (by simp [new])]
  rfl

private theorem deadlines_cons_old (old : cache.inserted? call address = none) :
    deadlines ((cache, call) :: past) address = (call.deadline? address).toList ++ deadlines past address := by
  rw [deadlines, List.takeWhile_cons_of_pos (by simp [old]), List.filterMap_cons]
  cases call.deadline? address <;> rfl

/-- What the past says of an address that a call leaves alone is what it said before. -/
private theorem told_before (past : List (EndpointCache × CacheCall)) (old : cache.inserted? call address = none)
    (still : call.deadline? address = none) :
    insertion? ((cache, call) :: past) address = insertion? past address ∧
      deadlines ((cache, call) :: past) address = deadlines past address := by
  rw [insertion?_cons, deadlines_cons_old old, old, still]
  exact ⟨rfl, rfl⟩

private theorem Recalls.put (recalls : cache.Recalls past) (room : 0 < cache.capacity) {entry : CachedEndpoint}
    (keeps : call.isClear = false) (touched : cache.touched? call = some address)
    (others : ∀ other, other ≠ address → cache.inserted? call other = none ∧ call.deadline? other = none)
    (own : insertion? ((cache, call) :: past) address = some entry.endpoint ∧
      ∀ time, time < entry.openUntil ↔ time < (deadlines ((cache, call) :: past) address).foldr max 0) :
    (cache.put address entry).Recalls ((cache, call) :: past) where
  recent := by
    have different (other : Address) : decide (other ≠ address) = (other != address) := by
      rw [Bool.eq_iff_iff, decide_eq_true_eq, bne_iff_ne]
    rw [touches_cons keeps, touched, addresses_put, recalls.recent]
    simp only [different]
    exact (take_eraseDups_cons _ _ _).symm
  known := by
    intro other kept known
    by_cases same : other = address
    · rw [same, get?_put_same room] at known
      cases known
      rw [same]
      exact own
    · obtain ⟨old, still⟩ := others other same
      obtain ⟨insertion, deadlines⟩ := told_before past old still
      rw [insertion, deadlines]
      exact recalls.known other kept (get?_put_other same known)

private theorem Recalls.handled {later : EndpointCache} (recalls : cache.Recalls past) (room : 0 < cache.capacity)
    (handles : cache.Handles call later) : later.Recalls ((cache, call) :: past) := by
  cases handles with
  | nothing keeps untouched quiet =>
    constructor
    · rw [touches_cons keeps, untouched]
      exact recalls.recent
    · intro address entry known
      obtain ⟨old, still⟩ := quiet address (contains_of_get? known)
      obtain ⟨insertion, deadlines⟩ := told_before past old still
      rw [insertion, deadlines]
      exact recalls.known address entry known
  | clears clears =>
    constructor
    · rw [touches, List.takeWhile_cons_of_neg (by simp [clears])]
      exact List.take_nil.symm
    · intro address entry known
      cases known
  | inserts address endpoint keeps touched resolved others =>
    refine recalls.put room keeps touched others ⟨?_, fun time => ?_⟩
    · rw [insertion?_cons, resolved, Option.some_or]
    · rw [deadlines_cons_new resolved]
      exact Iff.rfl
  | renews address entry known keeps touched old others =>
    obtain ⟨insertion, allowed⟩ := recalls.known address entry known
    refine recalls.put room keeps touched others ⟨?_, fun time => ?_⟩
    · rw [insertion?_cons, old, Option.none_or]
      exact insertion
    · rw [deadlines_cons_old old]
      cases call.deadline? address with
      | none => exact allowed time
      | some deadline =>
        change time < max entry.openUntil deadline ↔ time < max deadline _
        rw [Micros.lt_max_iff, Micros.lt_max_iff, allowed time]
        exact or_comm

end Step

private theorem history_concat (cache : EndpointCache) (calls : List CacheCall) (call : CacheCall) :
    cache.history (calls ++ [call]) = cache.history calls ++ [(cache.run calls, call)] := by
  induction calls generalizing cache with
  | nil => rfl
  | cons first calls ih => exact congrArg ((cache, first) :: ·) (ih (cache.after first))

private theorem run_concat (cache : EndpointCache) (calls : List CacheCall) (call : CacheCall) :
    cache.run (calls ++ [call]) = (cache.run calls).after call := List.foldl_concat ..

theorem run_capacity (cache : EndpointCache) (calls : List CacheCall) : (cache.run calls).capacity = cache.capacity := by
  induction calls generalizing cache with
  | nil => rfl
  | cons call calls ih => exact (ih (cache.after call)).trans (cache.after_handles call).capacity

theorem run_recalls (capacity : Nat) (calls : List CacheCall) :
    ((empty capacity).run calls).Recalls ((empty capacity).history calls).reverse := by
  induction calls using List.reverseRecOn with
  | nil => exact ⟨List.take_nil.symm, fun _ _ known => nomatch known⟩
  | append_singleton calls call ih =>
    have room : 0 < ((empty capacity).run calls).capacity := by
      rw [run_capacity]
      exact (tidy_empty capacity).room
    rw [run_concat, history_concat, List.reverse_append]
    exact ih.handled room (after_handles _ call)

/-- A cache knows the addresses that were touched last since it was cleared, as many as fit, and no others. Those it finds
where they were when they were put in, without asking again; it lets them send before time zero and before the latest time
that they were allowed since then. Others it has to resolve, and what does not resolve leaves it as it is. -/
theorem knows_last_touched (capacity : Nat) (calls : List CacheCall) :
    let cache := (empty capacity).run calls
    let past := ((empty capacity).history calls).reverse
    let recent := (touches past).eraseDups.take (max capacity 1)
    cache.size = recent.length ∧
    (∀ address, cache.contains address = true ↔ address ∈ recent) ∧
    (∀ address ∈ recent, ∃ endpoint, insertion? past address = some endpoint ∧ ∀ resolve,
      (cache.lookup resolve address).endpoint = some endpoint ∧ (cache.lookup resolve address).asked = false) ∧
    (∀ address, address ∉ recent → ∀ resolve, (cache.lookup resolve address).asked = true ∧
      (cache.lookup resolve address).endpoint = resolve address ∧
      (resolve address = none → (cache.lookup resolve address).cache = cache)) ∧
    (∀ address deadline, (cache.unrestrict address deadline).2 = true ↔ address ∈ recent) ∧
    ∀ address time, (cache.isUnrestricted address time).2 = true ↔
      address ∈ recent ∧ time < (deadlines past address).foldr max 0 := by
  intro cache past recent
  have recalls : cache.Recalls past := run_recalls capacity calls
  have order : cache.addresses = recent := by
    rw [recalls.recent, run_capacity]
    rfl
  have cached (address : Address) : cache.contains address = true ↔ address ∈ recent := by rw [contains_iff_mem, order]
  have entry_of (address : Address) (member : address ∈ recent) : ∃ entry, cache.get? address = some entry :=
    Option.isSome_iff_exists.mp ((cached address).mpr member)
  have none_of (address : Address) (stranger : address ∉ recent) : cache.get? address = none := by
    apply get?_of_not_contains
    rw [← Bool.not_eq_true, cached]
    exact stranger
  refine ⟨?_, cached, ?_, ?_, ?_, ?_⟩
  · rw [← order, addresses, List.length_map]
    rfl
  · intro address member
    obtain ⟨entry, known⟩ := entry_of address member
    refine ⟨entry.endpoint, (recalls.known address entry known).1, fun resolve => ?_⟩
    simp only [lookup, known, and_self]
  · intro address stranger resolve
    simp only [lookup, none_of address stranger]
    cases resolve address with
    | none => exact ⟨rfl, rfl, fun _ => rfl⟩
    | some endpoint => exact ⟨rfl, rfl, fun fails => absurd fails (Option.some_ne_none endpoint)⟩
  · intro address deadline
    rw [← cached, contains, unrestrict]
    cases cache.get? address <;> simp only [Option.isSome_none, Option.isSome_some]
  · intro address time
    change cache.accepts address time = true ↔ _
    rw [accepts_iff]
    constructor
    · rintro ⟨entry, known, early⟩
      exact ⟨(cached address).mp (contains_of_get? known), ((recalls.known address entry known).2 time).mp early⟩
    · rintro ⟨member, early⟩
      obtain ⟨entry, known⟩ := entry_of address member
      exact ⟨entry, known, ((recalls.known address entry known).2 time).mpr early⟩

/-- An address that was pushed out and comes back is found where it resolved to then, and it may not send any more. -/
theorem knows_last_touched_anew :
    let address (number : RelayId) : Address := ⟨number, 80, Octets.zero 16⟩
    let endpoint (number : RelayId) : Endpoint := ⟨number, .v4 (Octets.zero 4) 80⟩
    let lookup (number found : RelayId) : CacheCall := .lookup (fun _ => some (endpoint found)) (address number)
    let cache := (empty 2).run [lookup 1 1, .unrestrict (address 1) 100, lookup 2 2, .isUnrestricted (address 1) 5, lookup 3 3,
      lookup 2 4, lookup 1 5]
    cache.contains (address 3) = false ∧ (∀ resolve, (cache.lookup resolve (address 1)).endpoint = some (endpoint 5)) ∧
      (cache.isUnrestricted (address 1) 5).2 = false := by
  intro address endpoint lookup cache
  obtain ⟨_, cached, finds, _, _, opens⟩ := knows_last_touched 2 [lookup 1 1, .unrestrict (address 1) 100, lookup 2 2,
    .isUnrestricted (address 1) 5, lookup 3 3, lookup 2 4, lookup 1 5]
  refine ⟨?_, ?_, ?_⟩
  · rw [← Bool.not_eq_true, cached]
    decide
  · obtain ⟨found, last, again⟩ := finds (address 1) (by decide)
    have same : some (endpoint 5) = some found := last
    cases same
    exact fun resolve => (again resolve).1
  · rw [← Bool.not_eq_true, opens]
    decide

end EndpointCache
end OnionCircuit
