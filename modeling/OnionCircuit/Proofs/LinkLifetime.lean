import OnionCircuit.Proofs.AgentFaults
import OnionCircuit.Proofs.PacketGate

/-! An exchange and its link end together. An agent closes a link when it removes an exchange of it and at no other time,
and exchanges whose link is closed do not outlast the next sweep. -/

namespace OnionCircuit

def AgentEffect.closed? : AgentEffect → Option LinkRef
  | .close link => some link
  | .resolve _ | .salt => none

namespace Agent

def effects (agent : Agent) : Operation → List AgentEffect
  | .decrement relayId now => (agent.decrement relayId now).effects
  | .remove relayId => (agent.remove relayId).effects
  | .clean isClosed now => ((agent.clean isClosed now).toOption.map AgentStep.effects).getD []
  | .process resolve salt sender relayId datagram now => (agent.process resolve salt sender relayId datagram now).effects
  | .add .. | .setup .. | .ping .. | .credit .. | .next | .drain => []

section
variable (agent : Agent)

theorem effects_decrement (relayId : RelayId) (now : Micros) :
    agent.effects (.decrement relayId now) = (agent.decrement relayId now).effects := rfl

theorem effects_remove (relayId : RelayId) : agent.effects (.remove relayId) = (agent.remove relayId).effects := rfl

theorem effects_clean (isClosed : LinkRef → Bool) (now : Micros) :
    agent.effects (.clean isClosed now) = ((agent.clean isClosed now).toOption.map AgentStep.effects).getD [] := rfl

theorem effects_process (resolve : Resolver) (salt : UInt32) (sender : Endpoint) (relayId : RelayId) (datagram : Bytes)
    (now : Micros) : agent.effects (.process resolve salt sender relayId datagram now) =
      (agent.process resolve salt sender relayId datagram now).effects := rfl

end

def closings (agent : Agent) (operation : Operation) : List LinkRef := (agent.effects operation).filterMap AgentEffect.closed?

/-- Whether an operation asks an exchange for a point that it does not have, or removes it whatever it has. -/
def Ousts (agent : Agent) (operation : Operation) (exchange : Exchange) : Prop :=
  (∃ asked ∈ exchange.standing.ids, agent.asks? operation = some asked) ∧ exchange.standing.points = 0 ∨
    agent.Dismisses exchange.standing.ids operation

def Severs (agent : Agent) (operation : Operation) (link : LinkRef) : Prop :=
  ∃ exchange ∈ agent.table.exchanges, exchange.link.ref = link ∧ agent.Ousts operation exchange

/-- Operations that neither take a point nor remove anything. -/
def Spares (agent : Agent) : Operation → Prop
  | .add .. | .setup .. | .ping .. | .credit .. | .next | .drain => True
  | .process _ _ sender relayId datagram now => agent.passes sender relayId datagram now = false
  | .decrement .. | .remove _ | .clean .. => False

end Agent

/-- An agent, and which links are closed. -/
structure Node where
  agent : Agent
  closed : List LinkRef

namespace Node

inductive Event
  | operate (operation : Operation)
  /-- Somebody else closes a link. -/
  | hangUp (link : LinkRef)

def start (config : AgentConfig) : Node := ⟨Agent.fresh config, []⟩

/-- The operation as the agent has it done: a sweep finds the links as they are. -/
def told (node : Node) : Operation → Operation
  | .clean _ now => .clean (· ∈ node.closed) now
  | operation => operation

def next (node : Node) : Event → Node
  | .operate operation =>
    ⟨node.agent.after (node.told operation), node.closed ++ node.agent.closings (node.told operation)⟩
  | .hangUp link => { node with closed := node.closed ++ [link] }

def run (node : Node) (events : List Event) : Node := events.foldl next node

end Node

namespace Agent
variable {agent : Agent} {operation : Operation} {exchange : Exchange} {link : LinkRef} {now : Micros}

private theorem mem_closed {effects : List AgentEffect} :
    link ∈ effects.filterMap AgentEffect.closed? ↔ .close link ∈ effects := by
  rw [List.mem_filterMap]
  constructor
  · rintro ⟨effect, member, closed⟩
    cases effect with
    | close other =>
      cases closed
      exact member
    | _ => cases closed
  · exact fun member => ⟨_, member, rfl⟩

theorem charge_closes (agent : Agent) (exchange : Exchange) (now : Micros) (link : LinkRef) :
    .close link ∈ (agent.charge exchange now).effects ↔ exchange.link.ref = link ∧ exchange.standing.points ≤ 0 := by
  obtain ⟨broke, least⟩ | ⟨paid, pays, rich, _⟩ := exchange.spend?_cases now
  · simp only [charge, broke, drop, List.mem_singleton, AgentEffect.close.injEq, least, and_true, eq_comm]
  · simp only [charge, pays, List.not_mem_nil, Int.not_le.mpr rich, and_false]

private theorem severs_asked (solvent : agent.Solvent) {owner : Exchange} {asked : RelayId}
    (present : owner ∈ agent.table.exchanges) (own : asked ∈ owner.standing.ids) (asks : agent.asks? operation = some asked) :
    agent.Severs operation link ↔ owner.link.ref = link ∧ owner.standing.points ≤ 0 := by
  constructor
  · rintro ⟨exchange, member, same, ⟨⟨other, also, asksOther⟩, broke⟩ | dismissed⟩
    · cases asks.symm.trans asksOther
      obtain rfl := solvent.sound.eq_of_shared member present also own
      exact ⟨same, Int.le_of_eq broke⟩
    · cases operation with
      | remove | clean => cases asks
      | _ => exact dismissed.elim
  · rintro ⟨same, least⟩
    exact ⟨owner, present, same, Or.inl ⟨⟨asked, own, asks⟩, Int.le_antisymm least (solvent.funded owner present).1⟩⟩

theorem Spares.not_ousts (spares : agent.Spares operation) (exchange : Exchange) : ¬ agent.Ousts operation exchange := by
  rintro (⟨⟨asked, _, asks⟩, _⟩ | dismissed)
  · cases operation with
    | decrement => exact spares
    | process resolve salt sender relayId datagram now =>
      rw [Spares] at spares
      rw [asks?, spares] at asks
      cases asks
    | _ => cases asks
  · cases operation with
    | remove | clean => exact spares
    | _ => exact dismissed

theorem Spares.closings (spares : agent.Spares operation) : agent.closings operation = [] := by
  cases operation with
  | process resolve salt sender relayId datagram now =>
    simp only [Agent.closings, effects_process, (process_refused spares resolve salt).2, List.filterMap_nil]
  | decrement | remove | clean => exact spares.elim
  | _ => rfl

theorem Spares.mem_closings_iff (spares : agent.Spares operation) :
    link ∈ agent.closings operation ↔ agent.Severs operation link := by
  rw [spares.closings]
  exact iff_of_false List.not_mem_nil fun ⟨exchange, _, _, ousted⟩ => spares.not_ousts exchange ousted

private theorem decrement_closings_iff (solvent : agent.Solvent) (relayId : RelayId) :
    link ∈ agent.closings (.decrement relayId now) ↔ agent.Severs (.decrement relayId now) link := by
  cases got : agent.table.get? relayId with
  | none =>
    simp only [closings, effects_decrement, decrement, got, List.filterMap_nil]
    refine iff_of_false List.not_mem_nil ?_
    rintro ⟨exchange, member, _, ⟨⟨asked, own, asks⟩, _⟩ | dismissed⟩
    · cases asks
      exact ExchangeTable.unowned_of_get? got (List.mem_map_of_mem member) own
    · exact dismissed
  | some owner =>
    obtain ⟨present, own⟩ := ExchangeTable.owned_of_get? got
    rw [severs_asked solvent present own rfl, ← charge_closes agent owner now]
    simp only [closings, effects_decrement, decrement, got, mem_closed]

private theorem remove_closings_iff (sound : agent.table.Sound) (relayId : RelayId) :
    link ∈ agent.closings (.remove relayId) ↔ agent.Severs (.remove relayId) link := by
  simp only [closings, effects_remove, remove, mem_closed, Severs, Ousts, asks?, Dismisses, reduceCtorEq, and_false,
    exists_false, false_and, false_or]
  cases got : agent.table.get? relayId with
  | none =>
    refine iff_of_false List.not_mem_nil ?_
    rintro ⟨exchange, member, _, own⟩
    exact ExchangeTable.unowned_of_get? got (List.mem_map_of_mem member) own
  | some owner =>
    obtain ⟨present, own⟩ := ExchangeTable.owned_of_get? got
    simp only [drop, List.mem_singleton, AgentEffect.close.injEq]
    constructor
    · rintro rfl
      exact ⟨owner, present, rfl, own⟩
    · rintro ⟨exchange, member, same, also⟩
      rw [sound.eq_of_shared present member own also, same]

private theorem clean_closings_iff (sound : agent.table.Sound) (isClosed : LinkRef → Bool) :
    link ∈ agent.closings (.clean isClosed now) ↔ agent.Severs (.clean isClosed now) link := by
  simp only [closings, effects_clean, clean, mem_closed, Severs, Ousts, asks?, Dismisses, reduceCtorEq, and_false,
    exists_false, false_and, false_or]
  cases told : agent.table.expired isClosed now with
  | error fault =>
    refine iff_of_false List.not_mem_nil ?_
    rintro ⟨_, _, _, _, gone, _⟩
    cases gone
  | ok gone =>
    have present {exchange : Exchange} (left : exchange ∈ gone) : exchange ∈ agent.table.exchanges :=
      (List.mem_filter.mp (ExchangeTable.expired_eq told ▸ left)).1
    simp only [Except.ok.injEq, exists_eq_left', Bind.bind, Except.bind, pure, Except.pure, Except.toOption,
      Option.map_some, Option.getD_some, List.mem_map, AgentEffect.close.injEq]
    constructor
    · rintro ⟨exchange, left, same⟩
      exact ⟨exchange, present left, same, exchange, left, List.mem_cons_self⟩
    · rintro ⟨exchange, member, same, other, left, own⟩
      obtain rfl := sound.eq_of_shared (present left) member List.mem_cons_self own
      exact ⟨other, left, same⟩

private theorem process_closings_iff (solvent : agent.Solvent) (resolve : Resolver) (salt : UInt32) (sender : Endpoint)
    (relayId : RelayId) (datagram : Bytes) :
    link ∈ agent.closings (.process resolve salt sender relayId datagram now) ↔
      agent.Severs (.process resolve salt sender relayId datagram now) link := by
  cases passes : agent.passes sender relayId datagram now with
  | false => exact Spares.mem_closings_iff passes
  | true =>
    obtain ⟨owner, direction, guarded, found, _, _, closes⟩ := process_pays passes resolve salt
    obtain ⟨present, own⟩ := ExchangeTable.owned_of_find? found
    rw [severs_asked solvent present own (by simp only [asks?, passes, if_true])]
    simp only [closings, effects_process, mem_closed]
    exact (closes link).trans (charge_closes guarded _ now link)

theorem Solvent.mem_closings_iff (solvent : agent.Solvent) (operation : Operation) (link : LinkRef) :
    link ∈ agent.closings operation ↔ agent.Severs operation link := by
  cases operation with
  | decrement relayId now => exact decrement_closings_iff solvent relayId
  | remove relayId => exact remove_closings_iff solvent.sound relayId
  | clean isClosed now => exact clean_closings_iff solvent.sound isClosed
  | process resolve salt sender relayId datagram now =>
    exact process_closings_iff solvent resolve salt sender relayId datagram
  | _ => exact Spares.mem_closings_iff trivial

/-- A sweep that is not stopped leaves no exchange whose link is closed. -/
theorem open_after_clean {isClosed : LinkRef → Bool} (runs : agent.fault? (.clean isClosed now) = none)
    (member : exchange ∈ (agent.after (.clean isClosed now)).table.exchanges) : isClosed exchange.link.ref = false := by
  cases told : agent.table.expired isClosed now with
  | error fault =>
    simp only [fault?, clean, told, Bind.bind, Except.bind, Fault.of?] at runs
    cases runs
  | ok gone =>
    simp only [after, clean, told, Bind.bind, Except.bind, pure, Except.pure, Except.toOption, Option.map_some,
      Option.getD_some, ExchangeTable.exchanges_foldl_erase] at member
    obtain ⟨present, left⟩ := List.mem_filter.mp member
    refine Bool.eq_false_iff.mpr fun closed => ?_
    have expired : exchange.isExpired isClosed now = .ok true := if_pos closed
    have swept : exchange ∈ gone := by
      rw [ExchangeTable.expired_eq told]
      exact List.mem_filter.mpr ⟨present, by rw [expired]; rfl⟩
    exact of_decide_eq_true (List.all_eq_true.mp left exchange swept) rfl

theorem link_of_known (sound : agent.table.Sound) (member : exchange ∈ agent.table.exchanges)
    (known : (agent.after operation).contains exchange.innerId = true) :
    ∃ other ∈ (agent.after operation).table.exchanges, other.innerId = exchange.innerId ∧ other.link = exchange.link := by
  obtain ⟨other, present, shared⟩ := ExchangeTable.mem_ids.mp (ExchangeTable.contains_iff_mem_ids.mp known)
  -- Whatever has the id now came from an exchange with the same two ids, which can only be this one.
  have came {old : Exchange} (before : old ∈ agent.table.exchanges) (inner : other.innerId = old.innerId)
      (outer : other.outerId = old.outerId) (link : other.link = old.link) :
      ∃ other ∈ (agent.after operation).table.exchanges, other.innerId = exchange.innerId ∧ other.link = exchange.link := by
    rw [inner, outer] at shared
    obtain rfl := sound.eq_of_shared member before List.mem_cons_self (by simpa using shared)
    exact ⟨other, present, inner, link⟩
  obtain ⟨new, _, inner, outer, _, _, _, table⟩ | ⟨_, ⟨connectionId, block, now, rfl⟩ | change⟩ :=
    agent.after_cases operation
  · rw [table] at present
    obtain old | fresh := List.mem_append.mp present
    · exact came old rfl rfl rfl
    · cases List.mem_singleton.mp fresh
      have used : exchange.innerId ∈ agent.table.ids := ExchangeTable.mem_ids.mpr ⟨exchange, member, Or.inl rfl⟩
      obtain same | same := shared
      · exact absurd (same ▸ used) inner
      · exact absurd (same ▸ used) outer
  · obtain ⟨_, same⟩ | ⟨_, old, owned, table⟩ := agent.setup_cases connectionId block now
    · rw [after, same] at present
      exact came present rfl rfl rfl
    · rw [after, table] at present
      obtain rfl | ⟨before, _⟩ := ExchangeTable.mem_replace present
      · exact came (mem_of_owned? owned).1 rfl rfl rfl
      · exact came before rfl rfl rfl
  · obtain ⟨old, before, inner, outer, link, _⟩ := change.kept present
    exact came before inner outer link

/-- The agent got where it is by operations. -/
def Reached (config : AgentConfig) (agent : Agent) : Prop := ∃ operations, agent = (fresh config).run operations

section
variable {config : AgentConfig}

theorem reached_fresh (config : AgentConfig) : (fresh config).Reached config := ⟨[], rfl⟩

theorem Reached.after (reached : agent.Reached config) (operation : Operation) : (agent.after operation).Reached config := by
  obtain ⟨operations, rfl⟩ := reached
  exact ⟨operations ++ [operation], (run_append _ operations [operation]).symm⟩

theorem Reached.sound (reached : agent.Reached config) : agent.table.Sound := by
  obtain ⟨operations, rfl⟩ := reached
  exact run_fresh_sound config operations

theorem Reached.solvent (reached : agent.Reached config) (valid : config.validate = .ok ()) : agent.Solvent := by
  obtain ⟨operations, rfl⟩ := reached
  exact run_solvent valid operations

theorem Reached.unknown_iff (reached : agent.Reached config) (valid : config.validate = .ok ()) (operation : Operation)
    (member : exchange ∈ agent.table.exchanges) :
    (agent.after operation).contains exchange.innerId = false ↔ agent.Ousts operation exchange := by
  have solvent := reached.solvent valid
  obtain ⟨operations, rfl⟩ := reached
  have stands : exchange.standing ∈ ((fresh config).run operations).table.standings := List.mem_map_of_mem member
  have balanced := Book.run_balanced valid operations
  have held := balanced.standings ▸ (Book.start config).run_agent operations ▸ stands
  obtain ⟨account, live, same⟩ := List.mem_map.mp held
  have ids : account.ids = exchange.standing.ids := congrArg Standing.ids same
  have own : exchange.innerId ∈ account.ids := by
    rw [ids]
    exact List.mem_cons_self
  have unknown := balanced.unknown_iff_ends valid live own operation
  rw [(Book.start config).run_agent operations, ids] at unknown
  exact unknown.trans (ends_iff solvent operation stands)

/-- A packet that is dropped at the gate is not charged for. -/
theorem Reached.spares_of_gate (reached : agent.Reached config) {resolve : Resolver} {salt : UInt32} {sender : Endpoint}
    {relayId : RelayId} {datagram : Bytes} {reason : DropReason} (gate : reason.atGate = true)
    (dropped : (agent.process resolve salt sender relayId datagram now).value = .ok (.dropped reason)) :
    agent.Spares (.process resolve salt sender relayId datagram now) := by
  have sound := reached.sound
  obtain ⟨operations, rfl⟩ := reached
  have fits : ((fresh config).run operations).cache.entries.length ≤ ((fresh config).run operations).cache.capacity :=
    run_fits (EndpointCache.tidy_empty _) (Nat.zero_le _) operations
  have runs : ((fresh config).run operations).fault? (.process resolve salt sender relayId datagram now) = none := by
    rw [fault?, dropped]
    rfl
  have refuses := refuses_of_process resolve salt sound runs (Or.inl gate) dropped
  exact (refuses.process resolve salt sound fits runs).2.1

end
end Agent

namespace Node
variable {config : AgentConfig} {node : Node} {link : LinkRef}

theorem closed_run (closed : link ∈ node.closed) (events : List Event) : link ∈ (node.run events).closed := by
  induction events generalizing node with
  | nil => exact closed
  | cons event events ih =>
    apply ih
    cases event with
    | operate operation => exact List.mem_append_left _ closed
    | hangUp other => exact List.mem_append_left _ closed

theorem reached_next (reached : node.agent.Reached config) (event : Event) : (node.next event).agent.Reached config := by
  cases event with
  | operate operation => exact reached.after (node.told operation)
  | hangUp other => exact reached

theorem reached_run (reached : node.agent.Reached config) (events : List Event) :
    (node.run events).agent.Reached config := by
  induction events generalizing node with
  | nil => exact reached
  | cons event events ih => exact ih (reached_next reached event)

/-- An exchange that is gone sooner or later has left its link closed. -/
theorem closed_of_unknown (valid : config.validate = .ok ()) (reached : node.agent.Reached config) {exchange : Exchange}
    (member : exchange ∈ node.agent.table.exchanges) {later : List Event}
    (gone : (node.run later).agent.contains exchange.innerId = false) : exchange.link.ref ∈ (node.run later).closed := by
  induction later generalizing node exchange with
  | nil =>
    have known : node.agent.contains exchange.innerId = true :=
      ExchangeTable.contains_iff_mem_ids.mpr (ExchangeTable.mem_ids.mpr ⟨exchange, member, Or.inl rfl⟩)
    cases known.symm.trans gone
  | cons event later ih =>
    have follows := reached_next reached event
    cases event with
    | hangUp other => exact ih follows member gone
    | operate operation =>
      cases known : (node.agent.after (node.told operation)).contains exchange.innerId with
      | true =>
        obtain ⟨other, present, inner, link⟩ := Agent.link_of_known reached.sound member known
        rw [← link]
        exact ih follows present (inner ▸ gone)
      | false =>
        -- It went just now, and its link was closed with it.
        have ousted := (reached.unknown_iff valid _ member).mp known
        have closes := ((reached.solvent valid).mem_closings_iff _ _).mpr ⟨exchange, member, rfl, ousted⟩
        exact closed_run (List.mem_append_right _ closes) later

/-- An agent closes a link when it removes an exchange of it, and at no other time. It removes those that are asked for a
point they do not have, that are to be removed, or that a sweep finds expired; nothing else that may be done to it closes
any. Exchanges that are gone have left their links closed, and those whose links are closed are gone after a sweep. -/
theorem link_closed_iff (valid : config.validate = .ok ()) (events : List Event) :
    let node := (start config).run events
    let agent := node.agent
    (∀ operation link, link ∈ agent.closings operation ↔
      ∃ exchange ∈ agent.table.exchanges, exchange.link.ref = link ∧
        (agent.after operation).contains exchange.innerId = false) ∧
    (∀ operation, ∀ exchange ∈ agent.table.exchanges,
      (agent.after operation).contains exchange.innerId = false ↔ agent.Ousts operation exchange) ∧
    (∀ operation, agent.Spares operation → agent.closings operation = [] ∧
      ∀ exchange ∈ agent.table.exchanges, (agent.after operation).contains exchange.innerId = true) ∧
    (∀ resolve salt sender relayId datagram now reason, reason.atGate = true →
      (agent.process resolve salt sender relayId datagram now).value = .ok (.dropped reason) →
        agent.Spares (.process resolve salt sender relayId datagram now)) ∧
    (∀ later, ∀ exchange ∈ agent.table.exchanges,
      (node.run later).agent.contains exchange.innerId = false → exchange.link.ref ∈ (node.run later).closed) ∧
    ∀ link ∈ node.closed, ∀ later isClosed now,
      let sweeping := node.run later
      sweeping.agent.fault? (sweeping.told (.clean isClosed now)) = none →
        ∀ exchange ∈ (sweeping.next (.operate (.clean isClosed now))).agent.table.exchanges, exchange.link.ref ≠ link := by
  intro node agent
  have reached : agent.Reached config := reached_run (Agent.reached_fresh config) events
  refine ⟨fun operation link => ?_, fun operation exchange => reached.unknown_iff valid operation,
    ?_, ?_, fun later exchange member => closed_of_unknown valid reached member, ?_⟩
  · rw [(reached.solvent valid).mem_closings_iff]
    refine exists_congr fun exchange => and_congr_right fun member => and_congr_right fun _ => ?_
    exact (reached.unknown_iff valid operation member).symm
  · intro operation spares
    refine ⟨spares.closings, fun exchange member => Bool.eq_true_of_not_eq_false fun gone => ?_⟩
    exact spares.not_ousts exchange ((reached.unknown_iff valid operation member).mp gone)
  · intro resolve salt sender relayId datagram now reason gate dropped
    exact reached.spares_of_gate gate dropped
  · rintro link closed later isClosed now sweeping runs exchange member rfl
    have shut : exchange.link.ref ∈ sweeping.closed := closed_run closed later
    exact of_decide_eq_false (Agent.open_after_clean runs member) shut

/-- Of two exchanges of one link one is removed. The other is there still, and gone after a sweep. -/
theorem link_closed_shared :
    let shared := (Circuit.numberedHop 1).link.ref
    let node := (start {}).run
      [.operate (Book.numberedAdd 1 [1, 2]), .operate (Book.numberedAdd 1 [3, 4]), .operate (.remove 2)]
    let swept := node.next (.operate (.clean (fun _ => false) 0))
    node.agent.contains 1 = false ∧ shared ∈ node.closed ∧ node.agent.contains 3 = true ∧
      ∀ exchange ∈ swept.agent.table.exchanges, exchange.link.ref ≠ shared := by
  intro shared node swept
  have valid : ({} : AgentConfig).validate = .ok () := rfl
  have closed : shared ∈ node.closed := by decide
  obtain ⟨_, _, _, _, _, sweeps⟩ := link_closed_iff valid
    [.operate (Book.numberedAdd 1 [1, 2]), .operate (Book.numberedAdd 1 [3, 4]), .operate (.remove 2)]
  exact ⟨by decide, closed, by decide, sweeps shared closed [] (fun _ => false) 0 (by decide)⟩

end Node
end OnionCircuit
