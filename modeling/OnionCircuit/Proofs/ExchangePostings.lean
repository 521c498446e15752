import OnionCircuit.Proofs.AgentRun
import OnionCircuit.Proofs.ExchangeStandings

/-! What the operations of an agent report of its exchanges: which ids were handed out, what was added or taken, and
whose exchange is gone. Nothing else becomes of their ids and points. -/

namespace OnionCircuit

/-- Whether an operation has closed a link. -/
def AgentStep.closes {α : Type} (step : AgentStep α) : Bool :=
  step.effects.any fun
    | .close _ => true
    | _ => false

theorem AgentStep.closes_eq_false {α : Type} {step : AgentStep α} :
    step.closes = false ↔ ∀ link, AgentEffect.close link ∉ step.effects := by
  rw [closes, List.any_eq_false]
  constructor
  · intro quiet link member
    exact quiet _ member rfl
  · intro quiet effect member
    cases effect with
    | close link => exact absurd member (quiet link)
    | resolve address => exact Bool.false_ne_true
    | salt => exact Bool.false_ne_true

theorem AgentStep.closes_congr {α β : Type} {one : AgentStep α} {two : AgentStep β}
    (same : ∀ link, .close link ∈ one.effects ↔ .close link ∈ two.effects) : one.closes = two.closes := by
  rw [Bool.eq_iff_iff, ← Bool.not_eq_false, ← Bool.not_eq_false, closes_eq_false, closes_eq_false]
  exact not_congr (forall_congr' fun link => not_congr (same link))

namespace Agent

/-- Whether a packet gets past the checks that come before it is charged for. -/
def passes (agent : Agent) (sender : Endpoint) (relayId : RelayId) (datagram : Bytes) (now : Micros) : Bool :=
  relayId ≠ 0 ∧ RelayIds.size ≤ datagram.length ∧ agent.admits sender relayId (datagram.drop RelayIds.size) now = true

/-- What an operation reports. -/
def posting (agent : Agent) : Operation → Posting
  | .add link block now words =>
    match agent.addExchange? link block now words with
    | some (_, .ok (innerId, outerId), _) => .opened innerId outerId
    | _ => .nothing
  | .credit relayId points =>
    match agent.addPoints relayId points with
    | .ok (_, credited) => .credited relayId credited.toInt
    | .error _ => .nothing
  | .decrement relayId now =>
    if (agent.decrement relayId now).value then .charged relayId false else .exhausted relayId false
  | .remove relayId => .removed [relayId]
  | .clean isClosed now =>
    match agent.table.expired isClosed now with
    | .ok gone => .removed (gone.map Exchange.innerId)
    | .error _ => .nothing
  | .process resolve salt sender relayId datagram now =>
    if agent.passes sender relayId datagram now then
      if (agent.process resolve salt sender relayId datagram now).closes then .exhausted relayId true
      else .charged relayId true
    else .nothing
  | .setup .. | .ping .. | .next | .drain => .nothing

section
variable (agent : Agent) (relayId : RelayId) (now : Micros)

theorem posting_add (link : Link) (block : AssignBlock) (words : List UInt32) : agent.posting (.add link block now words) =
    match agent.addExchange? link block now words with
    | some (_, .ok (innerId, outerId), _) => .opened innerId outerId
    | _ => .nothing := rfl

theorem posting_credit (points : Int64) : agent.posting (.credit relayId points) =
    match agent.addPoints relayId points with
    | .ok (_, credited) => .credited relayId credited.toInt
    | .error _ => .nothing := rfl

theorem posting_decrement : agent.posting (.decrement relayId now) =
    if (agent.decrement relayId now).value then .charged relayId false else .exhausted relayId false := rfl

theorem posting_remove : agent.posting (.remove relayId) = .removed [relayId] := rfl

theorem posting_clean (isClosed : LinkRef → Bool) : agent.posting (.clean isClosed now) =
    match agent.table.expired isClosed now with
    | .ok gone => .removed (gone.map Exchange.innerId)
    | .error _ => .nothing := rfl

theorem posting_process (resolve : Resolver) (salt : UInt32) (sender : Endpoint) (datagram : Bytes) :
    agent.posting (.process resolve salt sender relayId datagram now) =
      if agent.passes sender relayId datagram now then
        if (agent.process resolve salt sender relayId datagram now).closes then .exhausted relayId true
        else .charged relayId true
      else .nothing := rfl

end
end Agent

/-- Every id leads to one exchange, and every exchange has points between nothing and the limit. -/
structure Agent.Solvent (agent : Agent) : Prop where
  sound : agent.table.Sound
  funded : ∀ exchange ∈ agent.table.exchanges,
    0 ≤ exchange.standing.points ∧ exchange.standing.points ≤ agent.config.maxPoints.toInt

namespace Agent
open ExchangeTable Posting

theorem process_refused {agent : Agent} {sender : Endpoint} {relayId : RelayId} {datagram : Bytes} {now : Micros}
    (refuses : agent.passes sender relayId datagram now = false) (resolve : Resolver) (salt : UInt32) :
    (agent.process resolve salt sender relayId datagram now).agent.table = agent.table ∧
      (agent.process resolve salt sender relayId datagram now).effects = [] := by
  unfold process
  split
  next => exact ⟨rfl, rfl⟩
  next named =>
    split
    next => exact ⟨rfl, rfl⟩
    next long =>
      simp only [passes, named, Nat.not_lt.mp long, ne_eq, not_false_eq_true, true_and, Bool.decide_eq_true] at refuses
      have screened := agent.screen_screened sender relayId (datagram.drop RelayIds.size) now
      rw [refuses] at screened
      generalize agent.screen sender relayId (datagram.drop RelayIds.size) now = done at screened
      cases screened with
      | refused config table keeps =>
        simp only
        split
        next => exact ⟨table, rfl⟩
        next => exact ⟨table, rfl⟩
        next accepted => exact absurd rfl (keeps accepted)

/-- A packet that is let in is charged for before it is looked into, and that alone may close a link. -/
theorem process_accept {agent guarded : Agent} {exchange : Exchange} {passage : Passage} {sender : Endpoint}
    {relayId : RelayId} {datagram : Bytes} {now : Micros} (named : relayId ≠ 0) (long : RelayIds.size ≤ datagram.length)
    (accepts : agent.screen sender relayId (datagram.drop RelayIds.size) now = guarded.accept exchange passage now)
    (resolve : Resolver) (salt : UInt32) :
    let charged := guarded.charge exchange now
    let done := agent.process resolve salt sender relayId datagram now
    done.agent.table = charged.agent.table ∧ ∀ link, .close link ∈ done.effects ↔ .close link ∈ charged.effects := by
  have handled := (guarded.charge exchange now).agent.pass_handled resolve salt ⟨exchange, passage⟩ datagram now
  simp only [process, named, Nat.not_lt.mpr long, if_false, accepts, accept, pass_table, List.mem_append, true_and]
  exact fun link => or_iff_left (handled.open_links link)

theorem process_charged {agent : Agent} {sender : Endpoint} {relayId : RelayId} {datagram : Bytes} {now : Micros}
    (passes : agent.passes sender relayId datagram now = true) (resolve : Resolver) (salt : UInt32) :
    ∃ (owner exchange : Exchange) (direction : Direction) (guarded : Agent),
      agent.table.find? relayId = some (owner, direction) ∧
      guarded.config = agent.config ∧ guarded.table = agent.table ∧ exchange.standing = owner.standing ∧
      (agent.process resolve salt sender relayId datagram now).agent.table = (guarded.charge exchange now).agent.table ∧
      (agent.process resolve salt sender relayId datagram now).closes = (guarded.charge exchange now).closes := by
  obtain ⟨named, long, admits⟩ := of_decide_eq_true passes
  have screened := agent.screen_screened sender relayId (datagram.drop RelayIds.size) now
  rw [admits] at screened
  generalize accepts : agent.screen sender relayId (datagram.drop RelayIds.size) now = done at screened
  cases screened with
  | @admitted exchange owner direction guarded passage found config table same =>
    obtain ⟨after, closes⟩ := process_accept named long accepts resolve salt
    refine ⟨owner, exchange, direction, guarded, found, config, table, ?_, after, AgentStep.closes_congr closes⟩
    rcases same with rfl | rfl <;> rfl

section
variable {agent : Agent} {limits : AgentLimits} {relayId : RelayId}

/-- Whoever is charged pays a point, or is gone because there was none. -/
theorem charge_settles (limits : AgentLimits) (sound : agent.table.Sound) {owner exchange : Exchange}
    (present : owner ∈ agent.table.exchanges) (own : relayId ∈ owner.standing.ids) (funded : 0 ≤ owner.standing.points)
    (same : exchange.standing = owner.standing) (now : Micros) (packet : Bool) :
    let charged := agent.charge exchange now
    charged.value = !charged.closes ∧
    (if charged.closes then Posting.exhausted relayId packet else .charged relayId packet).Settles limits agent.table
      charged.agent.table := by
  have inner : exchange.innerId = owner.innerId := congrArg Standing.innerId same
  obtain ⟨broke, least⟩ | ⟨paid, pays, some_left, less⟩ := exchange.spend?_cases now
  · simp only [charge, broke, drop, AgentStep.closes, List.any_cons, Bool.true_or, if_true, Bool.not_true, true_and]
    constructor
    · refine settle_erase [exchange] rfl (fun _ => rfl) ?_
      intro other member
      simp only [Posting.ends, decide_eq_true_eq, List.mem_singleton, exists_eq_left, inner]
      exact sound.owns_iff present own member
    · intro standing member shared
      rw [sound.standing_eq present own member shared]
      rw [same] at least
      exact Int.le_antisymm least funded
  · simp only [charge, pays, AgentStep.closes, List.any_nil, Bool.not_false, Bool.false_eq_true, if_false, true_and]
    constructor
    · refine sound.settle_replace present own rfl (fun _ => rfl) (fun ids foreign => if_neg foreign) ?_
      rw [less, same, Standing.post, Posting.change, if_pos own]
      rfl
    · intro standing member shared
      rw [sound.standing_eq present own member shared, ← same]
      exact some_left

theorem opened_settles (table : ExchangeTable) (inner outer : RelayId) (link : Link) (block : AssignBlock) (now : Micros) :
    (Posting.opened inner outer).Settles limits table (table.insert (Exchange.start inner outer link block limits now)) := by
  refine ⟨?_, fun _ _ => trivial⟩
  rw [settle_others (fun _ _ => rfl) fun _ _ => rfl, standings, ExchangeTable.insert, List.map_append]
  rfl

/-- A newer version of an exchange with the same points is nothing to report. -/
theorem touch_settles (sound : agent.table.Sound) {old exchange : Exchange} (present : old ∈ agent.table.exchanges)
    (same : exchange.standing = old.standing) :
    Posting.nothing.Settles limits agent.table (agent.table.replace exchange) := by
  refine ⟨sound.settle_replace present List.mem_cons_self rfl (fun _ => rfl) (fun _ _ => rfl) ?_, fun _ _ => trivial⟩
  rw [same, Standing.post_eq rfl]

theorem credit_settles (solvent : agent.Solvent) (relayId : RelayId) (points : Int64) :
    (agent.posting (.credit relayId points)).Settles agent.config.toAgentLimits agent.table
      (agent.after (.credit relayId points)).table := by
  cases got : agent.table.get? relayId with
  | none =>
    have unknown : agent.addPoints relayId points = .ok (agent, 0) := by rw [addPoints, got]
    simp only [posting_credit, after, unknown, Except.toOption, Option.map_some, Option.getD_some]
    refine settles_unowned rfl (fun _ _ => rfl) ?_ ?_
    · exact fun standing member => if_neg (unowned_of_get? got member)
    · exact fun standing member shared => absurd shared (unowned_of_get? got member)
  | some exchange =>
    obtain ⟨present, own⟩ := owned_of_get? got
    have funded := solvent.funded exchange present
    obtain ⟨richer, credited, credits, amount, newer⟩ := Exchange.credit_eq funded points
    have adds : agent.addPoints relayId points = .ok ({ agent with table := agent.table.replace richer }, credited) := by
      simp only [addPoints, got, credits, bind, Except.bind, pure, Except.pure]
    simp only [posting_credit, after, adds, Except.toOption, Option.map_some, Option.getD_some]
    constructor
    · refine solvent.sound.settle_replace present own rfl (fun _ => rfl) (fun ids foreign => if_neg foreign) ?_
      rw [newer, Standing.post, Posting.change, if_pos own]
    · intro standing member shared
      rw [solvent.sound.standing_eq present own member shared, amount]
      omega

theorem decrement_settles (solvent : agent.Solvent) (relayId : RelayId) (now : Micros) :
    (agent.posting (.decrement relayId now)).Settles agent.config.toAgentLimits agent.table
      (agent.after (.decrement relayId now)).table := by
  cases got : agent.table.get? relayId with
  | none =>
    simp only [posting_decrement, after, decrement, got, Bool.false_eq_true, if_false]
    refine settles_unowned rfl ?_ (fun _ _ => rfl) ?_
    · exact fun standing member => decide_eq_false (unowned_of_get? got member)
    · exact fun standing member shared => absurd shared (unowned_of_get? got member)
  | some exchange =>
    obtain ⟨present, own⟩ := owned_of_get? got
    have funded := (solvent.funded exchange present).1
    obtain ⟨value, settles⟩ := charge_settles agent.config.toAgentLimits solvent.sound present own funded
      rfl now false
    simp only [posting_decrement, after, decrement, got, value, Bool.not_eq_true']
    cases closes : (agent.charge exchange now).closes <;> simpa [closes] using settles

theorem remove_settles (solvent : agent.Solvent) (relayId : RelayId) :
    (agent.posting (.remove relayId)).Settles limits agent.table (agent.after (.remove relayId)).table := by
  cases got : agent.table.get? relayId with
  | none =>
    simp only [posting_remove, after, remove, got]
    refine settles_unowned rfl ?_ (fun _ _ => rfl) fun _ _ => trivial
    intro standing member
    simpa [Posting.ends] using unowned_of_get? got member
  | some exchange =>
    obtain ⟨present, own⟩ := owned_of_get? got
    simp only [posting_remove, after, remove, got, drop]
    refine ⟨settle_erase [exchange] rfl (fun _ => rfl) ?_, fun _ _ => trivial⟩
    intro other member
    simpa [Posting.ends] using solvent.sound.owns_iff present own member

theorem clean_settles (solvent : agent.Solvent) (isClosed : LinkRef → Bool) (now : Micros) :
    (agent.posting (.clean isClosed now)).Settles limits agent.table (agent.after (.clean isClosed now)).table := by
  cases expired : agent.table.expired isClosed now with
  | error fault =>
    simp only [posting_clean, after, clean, expired, bind, Except.bind, Except.toOption, Option.map_none, Option.getD_none]
    exact settles_nothing _
  | ok gone =>
    simp only [posting_clean, after, clean, expired, bind, Except.bind, pure, Except.pure, Except.toOption, Option.map_some,
      Option.getD_some]
    refine ⟨settle_erase gone rfl (fun _ => rfl) ?_, fun _ _ => trivial⟩
    intro other member
    simp only [Posting.ends, decide_eq_true_eq, List.mem_map]
    constructor
    · rintro ⟨_, ⟨exchange, left, rfl⟩, shared⟩
      have present := (List.mem_filter.mp (expired_eq expired ▸ left)).1
      exact ⟨exchange, left, (solvent.sound.owns_iff present List.mem_cons_self member).mp shared⟩
    · rintro ⟨exchange, left, same⟩
      refine ⟨_, ⟨exchange, left, rfl⟩, ?_⟩
      rw [← same]
      exact List.mem_cons_self

theorem process_settles (solvent : agent.Solvent) (resolve : Resolver) (salt : UInt32) (sender : Endpoint)
    (relayId : RelayId) (datagram : Bytes) (now : Micros) :
    (agent.posting (.process resolve salt sender relayId datagram now)).Settles agent.config.toAgentLimits agent.table
      (agent.after (.process resolve salt sender relayId datagram now)).table := by
  cases passes : agent.passes sender relayId datagram now with
  | false =>
    simp only [posting_process, after, passes, Bool.false_eq_true, if_false, (process_refused passes resolve salt).1]
    exact settles_nothing _
  | true =>
    obtain ⟨owner, exchange, direction, guarded, found, config, table, same, done, closes⟩ :=
      process_charged passes resolve salt
    obtain ⟨present, own⟩ := owned_of_find? found
    have funded := (solvent.funded owner present).1
    -- The charge happens after the checks, to an agent that may differ in its cache but not in its table.
    have sound := solvent.sound
    rw [← table] at sound present
    have settles := (charge_settles agent.config.toAgentLimits sound present own funded same now true).2
    rw [table] at settles
    simp only [posting_process, after, passes, if_true, closes, done]
    exact settles

/-- Every operation tells the whole truth about the exchanges. -/
theorem Solvent.settles (solvent : agent.Solvent) (operation : Operation) :
    (agent.posting operation).Settles agent.config.toAgentLimits agent.table (agent.after operation).table := by
  cases operation with
  | add link block now words =>
    cases added : agent.addExchange? link block now words with
    | none =>
      simp only [posting_add, after, added, Option.map_none, Option.getD_none]
      exact settles_nothing _
    | some done =>
      obtain ⟨next, result, rest⟩ := done
      simp only [posting_add, after, added, Option.map_some, Option.getD_some]
      obtain ⟨rfl, rfl⟩ | ⟨inner, outer, rfl, _, _, _, _, _, rfl⟩ := addExchange?_cases added
      · exact settles_nothing _
      · exact opened_settles agent.table inner outer link block now
  | setup connectionId block now =>
    obtain ⟨_, same⟩ | ⟨_, exchange, owned, table⟩ := agent.setup_cases connectionId block now
    · rw [after, same]
      exact settles_nothing _
    · rw [after, table]
      exact touch_settles solvent.sound (mem_of_owned? owned).1 rfl
  | ping connectionId innerId now =>
    simp only [after, ping]
    split
    next exchange owned => exact touch_settles solvent.sound (mem_of_owned? owned).1 rfl
    next => exact settles_nothing _
  | credit relayId points => exact credit_settles solvent relayId points
  | decrement relayId now => exact decrement_settles solvent relayId now
  | remove relayId => exact remove_settles solvent relayId
  | clean isClosed now => exact clean_settles solvent isClosed now
  | process resolve salt sender relayId datagram now =>
    exact process_settles solvent resolve salt sender relayId datagram now
  | next =>
    have same : (agent.after .next).table = agent.table := by
      simp only [after, next?]
      split <;> rfl
    rw [same]
    exact settles_nothing _
  | drain => exact settles_nothing _

/-- Only an agent that has room for one more hands out ids. -/
theorem posting_fresh (agent : Agent) (operation : Operation) :
    (agent.posting operation).fresh = [] ∨
      agent.exchangeCount < agent.config.maxExchanges.toNat ∧ (agent.posting operation).fresh.length = 1 := by
  cases operation with
  | add link block now words =>
    cases added : agent.addExchange? link block now words with
    | none =>
      simp only [posting_add, added]
      exact Or.inl rfl
    | some done =>
      obtain ⟨next, result, rest⟩ := done
      cases result with
      | error verdict =>
        simp only [posting_add, added]
        exact Or.inl rfl
      | ok ids =>
        simp only [posting_add, added]
        refine Or.inr ⟨Nat.not_le.mp ?_, rfl⟩
        intro full
        rw [addExchange?, if_pos full] at added
        cases added
  | credit relayId points =>
    simp only [posting_credit]
    split <;> exact Or.inl rfl
  | decrement relayId now =>
    simp only [posting_decrement]
    split <;> exact Or.inl rfl
  | clean isClosed now =>
    simp only [posting_clean]
    split <;> exact Or.inl rfl
  | process resolve salt sender relayId datagram now =>
    simp only [posting_process]
    split
    · split <;> exact Or.inl rfl
    · exact Or.inl rfl
  | _ => exact Or.inl rfl

theorem Solvent.after (solvent : agent.Solvent) (afford : 0 ≤ agent.config.defaultPoints.toInt)
    (enough : agent.config.defaultPoints.toInt ≤ agent.config.maxPoints.toInt) (operation : Operation) :
    (agent.after operation).Solvent := by
  have settles := solvent.settles operation
  refine ⟨after_sound solvent.sound operation, ?_⟩
  intro exchange member
  rw [after_config]
  have posted : exchange.standing ∈ (agent.after operation).table.standings := List.mem_map_of_mem member
  rw [settles.standings, Posting.settle, List.mem_append] at posted
  obtain kept | new := posted
  · obtain ⟨standing, left, same⟩ := List.mem_map.mp kept
    have present := (List.mem_filter.mp left).1
    obtain ⟨old, was, rfl⟩ := List.mem_map.mp present
    rw [← same]
    exact (settles.lawful _ present).within (solvent.funded old was)
  · obtain ⟨_, _, same⟩ := List.mem_map.mp new
    rw [← same]
    exact ⟨afford, enough⟩

end
end Agent
end OnionCircuit
