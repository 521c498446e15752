import OnionCircuit.Proofs.ExchangeUses

/-! Who may set up an exchange or keep it alive: whoever speaks over the link that it was assigned on, and names it by its
inner id. Nobody else gets more than a refusal, and nothing but that exchange is touched. -/

namespace OnionCircuit
namespace ExchangeTable
variable {table : ExchangeTable} {exchange : Exchange}

/-- A newer version of an exchange stands in the place of the older one. -/
theorem Sound.replace_eq (sound : table.Sound) {old : Exchange} (present : old ∈ table.exchanges)
    (inner : exchange.innerId = old.innerId) : ∃ front back, table.exchanges = front ++ old :: back ∧
      table.replace exchange = ⟨front ++ exchange :: back⟩ := by
  obtain ⟨front, back, parts⟩ := List.append_of_mem present
  refine ⟨front, back, parts, ?_⟩
  have distinct := sound.distinct
  rw [ids, parts, List.flatMap_append, List.flatMap_cons, List.nodup_append, List.nodup_append] at distinct
  obtain ⟨_, ⟨_, _, behind⟩, before⟩ := distinct
  have own : old.innerId ∈ [old.innerId, old.outerId] := List.mem_cons_self
  have named {part : List Exchange} {other : Exchange} (member : other ∈ part) :
      other.innerId ∈ part.flatMap fun exchange => [exchange.innerId, exchange.outerId] :=
    List.mem_flatMap.mpr ⟨other, member, List.mem_cons_self⟩
  have stays {part : List Exchange} (apart : ∀ other ∈ part, other.innerId ≠ old.innerId) :
      (part.map fun other => if other.innerId = exchange.innerId then exchange else other) = part := by
    rw [inner]
    exact (List.map_congr_left fun other member => if_neg (apart other member)).trans (List.map_id part)
  rw [ExchangeTable.replace, parts, List.map_append, List.map_cons, stays, stays, if_pos inner.symm]
  · intro other member
    exact (behind _ own _ (named member)).symm
  · intro other member
    exact before _ (named member) _ (List.mem_append_left _ own)

end ExchangeTable

namespace Agent

/-- The exchange with an inner id has become a newer version of itself, and everything else is as it was. -/
def Updates (agent : Agent) (innerId : RelayId) (update : Exchange → Exchange) (after : Agent) : Prop :=
  ∃ front owner back, agent.table.exchanges = front ++ owner :: back ∧ owner.innerId = innerId ∧
    after = agent.onTable ⟨front ++ update owner :: back⟩

/-- What an operation says of the next hop of the exchange with an inner id. -/
def told? (agent : Agent) (operation : Operation) (innerId : RelayId) : Option (Option Binding) :=
  (agent.use? operation innerId).bind Use.outer?

theorem isNextHop_iff {endpoint : Endpoint} : isNextHop endpoint = true ↔
    endpoint.relayId ≠ 0 ∧ endpoint.socket.port ≠ 0 ∧ endpoint.socket.ip.isUnspecified = false := by
  simp only [isNextHop, Bool.and_eq_true, decide_eq_true_eq, Bool.not_eq_true', and_assoc]

section
variable {agent : Agent} {connectionId : UInt64} {block : SetupBlock} {owner : Exchange} {innerId : RelayId}

theorem setup_accepted (valid : isNextHop block.endpoint = true)
    (owned : agent.owned? connectionId block.innerId = some owner) (now : Micros) :
    agent.setup connectionId block now =
      (agent.onTable (agent.table.replace { owner with outer := some ⟨block.endpoint, block.key⟩, lastAccess := now }),
        .success) := by
  rw [setup, if_pos valid, owned]
  rfl

theorem setup_refused (refused : isNextHop block.endpoint = true → agent.owned? connectionId block.innerId = none)
    (now : Micros) : agent.setup connectionId block now = (agent, .invalidEndpoint) := by
  unfold setup
  split
  next valid => rw [refused valid]
  next => rfl

theorem ping_answered (owned : agent.owned? connectionId innerId = some owner) (now : Micros) :
    agent.ping connectionId innerId now =
      (agent.onTable (agent.table.replace { owner with lastAccess := now }),
        some ⟨owner.points, owner.outer.map Binding.endpoint, owner.retention⟩) := by
  rw [ping, owned]
  rfl

theorem ping_refused (unowned : agent.owned? connectionId innerId = none) (now : Micros) :
    agent.ping connectionId innerId now = (agent, none) := by
  rw [ping, unowned]

/-- What an exchange knows of its next hop was said when it was assigned or last set up. -/
theorem outer_after (operation : Operation) (exchange : Exchange)
    (member : exchange ∈ (agent.after operation).table.exchanges) :
    agent.told? operation exchange.innerId = some exchange.outer ∨
      agent.told? operation exchange.innerId = none ∧
        ∃ old ∈ agent.table.exchanges, old.innerId = exchange.innerId ∧ old.outer = exchange.outer := by
  unfold told?
  cases after_tends operation member with
  | tells uses time told =>
    rw [uses]
    exact Or.inl told
  | touches uses time untold present inner outer =>
    rw [uses]
    exact Or.inr ⟨untold, _, present, inner, outer⟩
  | spares unused present inner outer lastAccess =>
    rw [unused]
    exact Or.inr ⟨rfl, _, present, inner, outer⟩

variable (sound : agent.table.Sound)
include sound

theorem owned?_eq_some_iff : agent.owned? connectionId innerId = some owner ↔
    owner ∈ agent.table.exchanges ∧ owner.innerId = innerId ∧ owner.link.connectionId = connectionId := by
  refine ⟨mem_of_owned?, ?_⟩
  intro owns
  obtain ⟨present, inner, own⟩ := owns
  rw [owned?, ← inner, sound.find?_inner present]
  exact if_pos own

theorem updates_replace {update : Exchange → Exchange} (owned : agent.owned? connectionId innerId = some owner)
    (inner : (update owner).innerId = owner.innerId) :
    agent.Updates innerId update (agent.onTable (agent.table.replace (update owner))) := by
  obtain ⟨present, named, _⟩ := mem_of_owned? owned
  obtain ⟨front, back, parts, replaced⟩ := sound.replace_eq present inner
  refine ⟨front, owner, back, parts, named, ?_⟩
  rw [replaced]

/-- A link sets up those exchanges that it owns, with any next hop that can be one. -/
theorem setup_law (connectionId : UInt64) (block : SetupBlock) (now : Micros) :
    let done := agent.setup connectionId block now
    (done.2 = .success ↔ isNextHop block.endpoint = true ∧
      ∃ exchange, agent.owned? connectionId block.innerId = some exchange) ∧
    (done.2 = .success → agent.Updates block.innerId
      (fun owner => { owner with outer := some ⟨block.endpoint, block.key⟩, lastAccess := now }) done.1) ∧
    (done.2 ≠ .success → done = (agent, .invalidEndpoint)) := by
  intro done
  by_cases entitled : isNextHop block.endpoint = true ∧
    ∃ exchange, agent.owned? connectionId block.innerId = some exchange
  · obtain ⟨valid, owner, owned⟩ := entitled
    have accepted : done = _ := setup_accepted valid owned now
    rw [accepted]
    refine ⟨iff_of_true rfl ⟨valid, owner, owned⟩, ?_, ?_⟩
    · intro _
      exact updates_replace sound owned rfl
    · intro refused
      exact absurd rfl refused
  · have refused : done = (agent, .invalidEndpoint) := by
      refine setup_refused ?_ now
      intro valid
      rw [Option.eq_none_iff_forall_ne_some]
      intro owner owned
      exact entitled ⟨valid, owner, owned⟩
    rw [refused]
    exact ⟨iff_of_false nofun entitled, nofun, fun _ => rfl⟩

theorem ping_law (connectionId : UInt64) (innerId : RelayId) (now : Micros) :
    let done := agent.ping connectionId innerId now
    (∀ answer, done.2 = some answer ↔ ∃ exchange, agent.owned? connectionId innerId = some exchange ∧
      answer = ⟨exchange.points, exchange.outer.map Binding.endpoint, exchange.retention⟩) ∧
    (done.2 ≠ none → agent.Updates innerId (fun owner => { owner with lastAccess := now }) done.1) ∧
    (done.2 = none → done.1 = agent) := by
  intro done
  cases owned : agent.owned? connectionId innerId with
  | none =>
    have refused : done = (agent, none) := ping_refused owned now
    rw [refused]
    refine ⟨?_, fun answered => absurd rfl answered, fun _ => rfl⟩
    intro answer
    exact iff_of_false nofun nofun
  | some owner =>
    have answered : done = _ := ping_answered owned now
    rw [answered]
    refine ⟨?_, ?_, nofun⟩
    · intro answer
      simp only [Option.some.injEq, exists_eq_left', eq_comm]
    · intro _
      exact updates_replace sound owned rfl

end

/-- An exchange is set up, or answers a ping, for the link that it was assigned on and for no other, and only under its inner
id. A refusal changes nothing, an answer only the exchange that it is about. Its next hop is the one of the last setup that was
accepted, with the key that came with it. -/
theorem owners_alone (config : AgentConfig) (operations : List Operation) :
    let agent := (fresh config).run operations
    let owns (connectionId : UInt64) (innerId : RelayId) (exchange : Exchange) : Prop :=
      exchange ∈ agent.table.exchanges ∧ exchange.innerId = innerId ∧ exchange.link.connectionId = connectionId
    (∀ connectionId block now,
      let done := agent.setup connectionId block now
      (done.2 = .success ↔ block.endpoint.relayId ≠ 0 ∧ block.endpoint.socket.port ≠ 0 ∧
        block.endpoint.socket.ip.isUnspecified = false ∧ ∃ exchange, owns connectionId block.innerId exchange) ∧
      (done.2 = .success → agent.Updates block.innerId
        (fun owner => { owner with outer := some ⟨block.endpoint, block.key⟩, lastAccess := now }) done.1) ∧
      (done.2 ≠ .success → done = (agent, .invalidEndpoint))) ∧
    (∀ connectionId innerId now,
      let done := agent.ping connectionId innerId now
      (∀ answer, done.2 = some answer ↔ ∃ exchange, owns connectionId innerId exchange ∧
        answer = ⟨exchange.points, exchange.outer.map Binding.endpoint, exchange.retention⟩) ∧
      (done.2 ≠ none → agent.Updates innerId (fun owner => { owner with lastAccess := now }) done.1) ∧
      (done.2 = none → done.1 = agent)) ∧
    ∀ exchange ∈ agent.table.exchanges,
      (((fresh config).history operations).filterMap fun moment => moment.1.told? moment.2 exchange.innerId).getLast? =
        some exchange.outer ∧
      ((exchange.outer.map Binding.key).isSome ↔ (exchange.outer.map Binding.endpoint).isSome) := by
  intro agent owns
  have sound : agent.table.Sound := run_fresh_sound config operations
  refine ⟨?_, ?_, ?_⟩
  · intro connectionId block now
    obtain ⟨accepts, updates, refuses⟩ := setup_law sound connectionId block now
    simp only [isNextHop_iff, owned?_eq_some_iff sound, and_assoc] at accepts
    exact ⟨accepts, updates, refuses⟩
  · intro connectionId innerId now
    obtain ⟨answers, updates, refuses⟩ := ping_law sound connectionId innerId now
    simp only [owned?_eq_some_iff sound] at answers
    exact ⟨answers, updates, refuses⟩
  · intro exchange live
    refine ⟨last_word outer_after config operations live, ?_⟩
    rw [Option.isSome_map, Option.isSome_map]

open Circuit (numberedHop) in
/-- The link of hop 1 sets up its exchange under the inner id; the outer id does not do, and neither does another link. -/
theorem owners_alone_closed :
    let agent := (fresh {}).run [closedAdd]
    let block : SetupBlock := ⟨1, (numberedHop 2).endpoint, (numberedHop 2).key⟩
    (agent.setup 1 block 2000000).2 = .success ∧
      agent.setup 1 { block with innerId := 2 } 2000000 = (agent, .invalidEndpoint) ∧
      agent.setup 2 block 2000000 = (agent, .invalidEndpoint) := by
  intro agent block
  have roomy : 0 < ({} : AgentConfig).maxExchanges.toNat := by decide
  have table : agent.table = ⟨[closedExchange ({} : AgentConfig).toAgentLimits]⟩ := after_closedAdd roomy
  obtain ⟨setups, _⟩ := owners_alone {} [closedAdd]
  refine ⟨(setups 1 block 2000000).1.mpr ?_, (setups 1 _ 2000000).2.2 ?_, (setups 2 block 2000000).2.2 ?_⟩
  · exact ⟨by decide, by decide, by decide, _, mem_closedAdd roomy, rfl, rfl⟩
  · intro accepted
    obtain ⟨_, _, _, exchange, live, inner, _⟩ := (setups 1 _ 2000000).1.mp accepted
    rw [table] at live
    cases List.mem_singleton.mp live
    exact absurd inner (by decide)
  · intro accepted
    obtain ⟨_, _, _, exchange, live, _, own⟩ := (setups 2 block 2000000).1.mp accepted
    rw [table] at live
    cases List.mem_singleton.mp live
    exact absurd own (by decide)

end Agent
end OnionCircuit
