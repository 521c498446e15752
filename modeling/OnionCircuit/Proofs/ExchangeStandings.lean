import OnionCircuit.Proofs.ExchangeIds

/-! What there may be to say of the exchanges of a table, and what that makes of their ids and points. An exchange that
stands in a table is changed in place, or it is gone; new ones stand behind all others. -/

namespace OnionCircuit

inductive Posting
  | opened (innerId outerId : RelayId)
  | credited (relayId : RelayId) (amount : Int)
  /-- A point was taken, for a packet or without one. -/
  | charged (relayId : RelayId) (packet : Bool)
  /-- There was no point to take. -/
  | exhausted (relayId : RelayId) (packet : Bool)
  | removed (relayIds : List RelayId)
  | nothing
deriving DecidableEq

namespace Posting

/-- Whether an exchange with some ids is gone. -/
def ends (posting : Posting) (relayIds : List RelayId) : Bool :=
  match posting with
  | .exhausted relayId _ => relayId ∈ relayIds
  | .removed gone => ∃ relayId ∈ gone, relayId ∈ relayIds
  | _ => false

/-- What is added to the points of an exchange with some ids. -/
def change (posting : Posting) (relayIds : List RelayId) : Int :=
  match posting with
  | .credited relayId amount => if relayId ∈ relayIds then amount else 0
  | .charged relayId _ => if relayId ∈ relayIds then -1 else 0
  | _ => 0

/-- The ids that were handed out. -/
def fresh : Posting → List (RelayId × RelayId)
  | .opened innerId outerId => [(innerId, outerId)]
  | _ => []

end Posting

/-- The ids and the points of an exchange. -/
structure Standing where
  innerId : RelayId
  outerId : RelayId
  points : Int
deriving DecidableEq

namespace Standing

def ids (standing : Standing) : List RelayId := [standing.innerId, standing.outerId]

def post (standing : Standing) (posting : Posting) : Standing :=
  { standing with points := standing.points + posting.change standing.ids }

theorem post_eq {standing : Standing} {posting : Posting} (same : posting.change standing.ids = 0) :
    standing.post posting = standing := by
  rw [post, same, Int.add_zero]

end Standing

/-- What a posting makes of all exchanges; a new one starts with some points. -/
def Posting.settle (posting : Posting) (start : Int) (standings : List Standing) : List Standing :=
  ((standings.filter fun standing => ¬ posting.ends standing.ids).map (·.post posting)) ++
    posting.fresh.map fun (innerId, outerId) => ⟨innerId, outerId, start⟩

namespace Posting
variable {posting : Posting} {start : Int} {standings : List Standing}

private theorem filter_stays (stays : ∀ standing ∈ standings, posting.ends standing.ids = false) :
    (standings.filter fun standing => ¬ posting.ends standing.ids) = standings := by
  apply List.filter_eq_self.mpr
  intro standing member
  rw [stays standing member]
  rfl

/-- What a posting is not about it leaves as it is. -/
theorem settle_others (stays : ∀ standing ∈ standings, posting.ends standing.ids = false)
    (same : ∀ standing ∈ standings, posting.change standing.ids = 0) : posting.settle start standings =
      standings ++ posting.fresh.map fun (innerId, outerId) => ⟨innerId, outerId, start⟩ := by
  have posted : standings.map (·.post posting) = standings.map id := by
    apply List.map_congr_left
    intro standing member
    exact Standing.post_eq (same standing member)
  rw [settle, filter_stays stays, posted, List.map_id]

/-- Without an end and without a beginning everybody is changed in place. -/
private theorem settle_kept (plain : posting.fresh = []) (stays : ∀ ids, posting.ends ids = false) :
    posting.settle start standings = standings.map (·.post posting) := by
  rw [settle, filter_stays fun standing _ => stays standing.ids, plain, List.map_nil, List.append_nil]

end Posting

/-- What a posting has to say of an exchange so that nothing is overdrawn, and nothing is given beyond a limit. -/
def Posting.Lawful (limit : Int) (standing : Standing) : Posting → Prop
  | .credited relayId amount =>
    relayId ∈ standing.ids → 0 ≤ amount ∧ standing.points + amount ≤ limit
  | .charged relayId _ => relayId ∈ standing.ids → 0 < standing.points
  | .exhausted relayId _ => relayId ∈ standing.ids → standing.points = 0
  | _ => True

/-- A lawful posting keeps the points within their bounds. -/
theorem Posting.Lawful.within {posting : Posting} {limit : Int} {standing : Standing}
    (lawful : posting.Lawful limit standing) (funded : 0 ≤ standing.points ∧ standing.points ≤ limit) :
    0 ≤ (standing.post posting).points ∧ (standing.post posting).points ≤ limit := by
  cases posting with
  | credited relayId amount =>
    simp only [Standing.post, Posting.change]
    split
    next own =>
      have added := lawful own
      omega
    next => omega
  | charged relayId packet =>
    simp only [Standing.post, Posting.change]
    split
    next own =>
      have some_left := lawful own
      omega
    next => omega
  | _ =>
    rw [Standing.post_eq rfl]
    exact funded

def Exchange.standing (exchange : Exchange) : Standing := ⟨exchange.innerId, exchange.outerId, exchange.points.toInt⟩

def ExchangeTable.standings (table : ExchangeTable) : List Standing := table.exchanges.map Exchange.standing

namespace ExchangeTable
variable {table : ExchangeTable} {exchange old : Exchange} {relayId : RelayId}

/-- Whoever has an id of an exchange has its inner id. -/
theorem Sound.owns_iff (sound : table.Sound) (present : old ∈ table.exchanges) (own : relayId ∈ old.standing.ids)
    {other : Exchange} (member : other ∈ table.exchanges) :
    relayId ∈ other.standing.ids ↔ other.innerId = old.innerId := by
  constructor
  · intro shared
    rw [sound.eq_of_shared member present shared own]
  · intro same
    have shared : other.innerId ∈ [old.innerId, old.outerId] := same ▸ List.mem_cons_self
    rw [sound.eq_of_shared member present List.mem_cons_self shared]
    exact own

variable {posting : Posting} {start : Int}

theorem Sound.settle_replace (sound : table.Sound) (present : old ∈ table.exchanges) (own : relayId ∈ old.standing.ids)
    (plain : posting.fresh = []) (stays : ∀ ids, posting.ends ids = false)
    (same : ∀ ids, relayId ∉ ids → posting.change ids = 0) (newer : exchange.standing = old.standing.post posting) :
    (table.replace exchange).standings = posting.settle start table.standings := by
  have inner : exchange.innerId = old.innerId := congrArg Standing.innerId newer
  rw [Posting.settle_kept plain stays, standings, standings, ExchangeTable.replace, List.map_map, List.map_map]
  apply List.map_congr_left
  intro other member
  simp only [Function.comp_apply, inner]
  split
  next shared =>
    have owned := (sound.owns_iff present own member).mpr shared
    rw [sound.eq_of_shared member present owned own, newer]
  next different =>
    exact (Standing.post_eq (same _ (mt (sound.owns_iff present own member).mp different))).symm

theorem exchanges_foldl_erase (gone : List Exchange) : (gone.foldl erase table).exchanges =
    table.exchanges.filter fun other => gone.all fun exchange => other.innerId ≠ exchange.innerId := by
  induction gone generalizing table with
  | nil => exact (List.filter_eq_self.mpr fun _ _ => rfl).symm
  | cons first gone ih =>
    rw [List.foldl_cons, ih, erase, List.filter_filter]
    apply List.filter_congr
    intro other _
    rw [List.all_cons, Bool.and_comm]

/-- What is gone is what the posting says is gone. -/
theorem settle_erase (gone : List Exchange) (plain : posting.fresh = []) (still : ∀ ids, posting.change ids = 0)
    (ends : ∀ other ∈ table.exchanges,
      posting.ends other.standing.ids = true ↔ ∃ exchange ∈ gone, other.innerId = exchange.innerId) :
    (gone.foldl erase table).standings = posting.settle start table.standings := by
  have posted (standings : List Standing) : standings.map (·.post posting) = standings := by
    rw [funext fun standing => Standing.post_eq (still standing.ids)]
    exact List.map_id' standings
  rw [Posting.settle, plain, posted, List.map_nil, List.append_nil, standings, standings, exchanges_foldl_erase, List.filter_map]
  congr 1
  apply List.filter_congr
  intro other member
  rw [Function.comp_apply, Bool.eq_iff_iff, decide_eq_true_iff, ends other member]
  simp

theorem owned_of_find? {direction : Direction} (found : table.find? relayId = some (exchange, direction)) :
    exchange ∈ table.exchanges ∧ relayId ∈ exchange.standing.ids := by
  obtain ⟨member, same⟩ := mem_of_find? found
  refine ⟨member, ?_⟩
  rw [same]
  cases direction with
  | outward => exact List.mem_cons_self
  | inward => exact List.mem_cons_of_mem _ List.mem_cons_self

theorem owned_of_get? (got : table.get? relayId = some exchange) :
    exchange ∈ table.exchanges ∧ relayId ∈ exchange.standing.ids := by
  obtain ⟨⟨owner, direction⟩, found, same⟩ := Option.map_eq_some_iff.mp got
  cases same
  exact owned_of_find? found

theorem unowned_of_get? (unknown : table.get? relayId = none) {standing : Standing} (member : standing ∈ table.standings) :
    relayId ∉ standing.ids := by
  intro own
  obtain ⟨other, present, rfl⟩ := List.mem_map.mp member
  have used : relayId ∈ table.ids := List.mem_flatMap.mpr ⟨other, present, own⟩
  rw [← contains_iff_mem_ids, contains, Option.map_eq_none_iff.mp unknown] at used
  cases used

theorem Sound.standing_eq (sound : table.Sound) (present : old ∈ table.exchanges) (own : relayId ∈ old.standing.ids)
    {standing : Standing} (member : standing ∈ table.standings) (shared : relayId ∈ standing.ids) :
    standing = old.standing := by
  obtain ⟨other, also, rfl⟩ := List.mem_map.mp member
  rw [sound.eq_of_shared also present shared own]

/-- Which exchanges are expired, unless one of them cannot tell. -/
theorem expired_eq {isClosed : LinkRef → Bool} {now : Micros} {gone : List Exchange}
    (told : table.expired isClosed now = .ok gone) :
    gone = table.exchanges.filter fun exchange => (exchange.isExpired isClosed now).toOption = some true := by
  -- The loop keeps what it has found in reverse, hence for any `kept`.
  have collects (exchanges kept gathered : List Exchange)
      (asked : exchanges.filterAuxM (fun exchange => exchange.isExpired isClosed now) kept = .ok gathered) :
      gathered.reverse = kept.reverse ++
        exchanges.filter fun exchange => (exchange.isExpired isClosed now).toOption = some true := by
    induction exchanges generalizing kept with
    | nil =>
      cases asked
      rw [List.filter_nil, List.append_nil]
    | cons first exchanges ih =>
      rw [List.filterAuxM] at asked
      cases answer : first.isExpired isClosed now with
      | error fault =>
        rw [answer] at asked
        cases asked
      | ok expired =>
        rw [answer] at asked
        rw [ih _ asked, List.filter_cons, answer]
        cases expired <;> simp [Except.toOption]
  rw [expired, List.filterM] at told
  cases asked : table.exchanges.filterAuxM (fun exchange => exchange.isExpired isClosed now) [] with
  | error fault =>
    rw [asked] at told
    cases told
  | ok gathered =>
    rw [asked] at told
    cases told
    exact collects _ _ _ asked

end ExchangeTable

private theorem toInt_max (one two : Int64) : (max one two).toInt = max one.toInt two.toInt := by
  change (if one ≤ two then two else one).toInt = if one.toInt ≤ two.toInt then two.toInt else one.toInt
  simp only [Int64.le_iff_toInt_le]
  split <;> rfl

private theorem toInt_min (one two : Int64) : (min one two).toInt = min one.toInt two.toInt := by
  change (if one ≤ two then one else two).toInt = if one.toInt ≤ two.toInt then one.toInt else two.toInt
  simp only [Int64.le_iff_toInt_le]
  split <;> rfl

namespace Exchange
variable {exchange : Exchange}

theorem spend?_cases (exchange : Exchange) (now : Micros) :
    (exchange.spend? now = none ∧ exchange.standing.points ≤ 0) ∨
    ∃ paid, exchange.spend? now = some paid ∧ 0 < exchange.standing.points ∧
      paid.standing = { exchange.standing with points := exchange.standing.points - 1 } := by
  have none_left : exchange.points ≤ 0 ↔ exchange.points.toInt ≤ 0 := Int64.le_iff_toInt_le
  unfold spend?
  split
  next broke => exact Or.inl ⟨rfl, none_left.mp broke⟩
  next rich =>
    have some_left : 0 < exchange.points.toInt := Int.not_le.mp (mt none_left.mpr rich)
    have top : exchange.points.toInt ≤ 9223372036854775807 := Int64.toInt_le exchange.points
    refine Or.inr ⟨_, rfl, some_left, ?_⟩
    have one : (1 : Int64).toInt = 1 := rfl
    have less : (exchange.points - 1).toInt = exchange.points.toInt - 1 := by
      rw [Int64.toInt_sub, one, Int.bmod_eq_of_le (by omega) (by omega)]
    simp only [standing, less]

/-- An exchange within its limit is credited what it has room for, and never less than nothing. -/
theorem credit_eq {limit : Int64} (funded : 0 ≤ exchange.standing.points ∧ exchange.standing.points ≤ limit.toInt)
    (points : Int64) : ∃ richer credited, exchange.credit points limit = .ok (richer, credited) ∧
      credited.toInt = max 0 (min points.toInt (limit.toInt - exchange.standing.points)) ∧
      richer.standing = { exchange.standing with points := exchange.standing.points + credited.toInt } := by
  obtain ⟨least, most⟩ := funded
  simp only [standing] at least most
  have top : limit.toInt ≤ 9223372036854775807 := Int64.toInt_le limit
  -- Both the room that is left and the sum lie between nothing and the limit, so neither is out of range.
  have fits : Checked.InRange (limit.toInt - exchange.points.toInt) := ⟨by omega, by omega⟩
  have room : Checked.sub limit exchange.points = .ok (limit - exchange.points) := if_pos fits
  obtain ⟨granted, granting⟩ : ∃ granted, granted = max (min points (limit - exchange.points)) 0 := ⟨_, rfl⟩
  have credited : granted.toInt = max 0 (min points.toInt (limit.toInt - exchange.points.toInt)) := by
    rw [granting, toInt_max, toInt_min, Checked.toInt_of_sub room, Int.max_comm]
    rfl
  have below : Checked.InRange (exchange.points.toInt + granted.toInt) := ⟨by omega, by omega⟩
  have total : Checked.add exchange.points granted = .ok (exchange.points + granted) := if_pos below
  refine ⟨{ exchange with points := exchange.points + granted }, granted, ?_, credited, ?_⟩
  · simp only [credit, room, Bind.bind, Except.bind, ← granting, total, pure, Except.pure]
  · simp only [standing, Checked.toInt_of_add total]

end Exchange

/-- What a posting says is all that has become of the exchanges, and nothing was overdrawn. -/
structure Posting.Settles (posting : Posting) (limits : AgentLimits) (before after : ExchangeTable) : Prop where
  standings : after.standings = posting.settle limits.defaultPoints.toInt before.standings
  lawful : ∀ standing ∈ before.standings, posting.Lawful limits.maxPoints.toInt standing

namespace Posting
variable {posting : Posting} {limits : AgentLimits} {table : ExchangeTable}

theorem settles_unowned (plain : posting.fresh = [])
    (stays : ∀ standing ∈ table.standings, posting.ends standing.ids = false)
    (same : ∀ standing ∈ table.standings, posting.change standing.ids = 0)
    (lawful : ∀ standing ∈ table.standings, posting.Lawful limits.maxPoints.toInt standing) :
    posting.Settles limits table table := by
  refine ⟨?_, lawful⟩
  rw [settle_others stays same, plain, List.map_nil, List.append_nil]

theorem settles_nothing (table : ExchangeTable) : nothing.Settles limits table table :=
  settles_unowned rfl (fun _ _ => rfl) (fun _ _ => rfl) fun _ _ => trivial

end Posting
end OnionCircuit
