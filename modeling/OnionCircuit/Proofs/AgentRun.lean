import OnionCircuit.Proofs.ExchangeIds
import OnionCircuit.Proofs.SenderCheck

/-! What the operations of an agent do to its exchanges. They add a new one, update one in
place, or remove some; only the owner of an exchange binds another hop to it. -/

namespace OnionCircuit

inductive Operation
  | add (link : Link) (block : AssignBlock) (now : Micros) (words : List UInt32)
  | setup (connectionId : UInt64) (block : SetupBlock) (now : Micros)
  | ping (connectionId : UInt64) (innerId : RelayId) (now : Micros)
  | credit (relayId : RelayId) (points : Int64)
  | decrement (relayId : RelayId) (now : Micros)
  | remove (relayId : RelayId)
  | clean (isClosed : LinkRef → Bool) (now : Micros)
  | process (resolve : Resolver) (salt : UInt32) (sender : Endpoint) (relayId : RelayId) (datagram : Bytes) (now : Micros)
  | next
  | drain

/-- Whether an operation is about packets and not about exchanges. -/
def Operation.movesPackets : Operation → Bool
  | .process .. | .next | .drain => true
  | _ => false

/-- When an operation happens, if it asks the clock. -/
def Operation.time? : Operation → Option Micros
  | .add _ _ now _ | .setup _ _ now | .ping _ _ now | .decrement _ now | .clean _ now | .process _ _ _ _ _ now => some now
  | .credit .. | .remove _ | .next | .drain => none

namespace Agent

/-- The agent after an operation; one that waits or fails changes nothing. -/
def after (agent : Agent) : Operation → Agent
  | .add link block now words => ((agent.addExchange? link block now words).map Prod.fst).getD agent
  | .setup connectionId block now => (agent.setup connectionId block now).1
  | .ping connectionId innerId now => (agent.ping connectionId innerId now).1
  | .credit relayId points => ((agent.addPoints relayId points).toOption.map Prod.fst).getD agent
  | .decrement relayId now => (agent.decrement relayId now).agent
  | .remove relayId => (agent.remove relayId).agent
  | .clean isClosed now => ((agent.clean isClosed now).toOption.map AgentStep.agent).getD agent
  | .process resolve salt sender relayId datagram now => (agent.process resolve salt sender relayId datagram now).agent
  | .next => agent.next?.1
  | .drain => agent.drain.1

end Agent

namespace ExchangeTable

/-- What an operation does to the exchanges unless it adds one or binds another hop to one. -/
inductive Change (before : ExchangeTable) : ExchangeTable → Prop
  | same : Change before before
  | updated {old new : Exchange} (present : old ∈ before.exchanges) (inner : new.innerId = old.innerId)
    (outer : new.outerId = old.outerId) (link : new.link = old.link) (bound : new.outer = old.outer) :
    Change before (before.replace new)
  | removed (gone : List Exchange) : Change before (gone.foldl erase before)

theorem Change.sound {before after : ExchangeTable} (change : Change before after) (sound : before.Sound) : after.Sound := by
  cases change with
  | same => exact sound
  | updated present inner outer _ _ => exact sound.replace present inner outer
  | removed gone =>
    induction gone generalizing before with
    | nil => exact sound
    | cons exchange gone ih => exact ih sound.erase

theorem mem_of_mem_foldl_erase {table : ExchangeTable} {gone : List Exchange} {exchange : Exchange}
    (member : exchange ∈ (gone.foldl erase table).exchanges) : exchange ∈ table.exchanges := by
  induction gone generalizing table with
  | nil => exact member
  | cons first gone ih => exact (mem_erase.mp (ih member)).1

/-- Every exchange after a change is one that was there, at most with other points and times. -/
theorem Change.kept {before after : ExchangeTable} (change : Change before after) {exchange : Exchange}
    (member : exchange ∈ after.exchanges) : ∃ old ∈ before.exchanges, exchange.innerId = old.innerId ∧
      exchange.outerId = old.outerId ∧ exchange.link = old.link ∧ exchange.outer = old.outer := by
  cases change with
  | same => exact ⟨exchange, member, rfl, rfl, rfl, rfl⟩
  | updated present inner outer link bound =>
    obtain rfl | ⟨old, _⟩ := mem_replace member
    · exact ⟨_, present, inner, outer, link, bound⟩
    · exact ⟨exchange, old, rfl, rfl, rfl, rfl⟩
  | removed gone => exact ⟨exchange, mem_of_mem_foldl_erase member, rfl, rfl, rfl, rfl⟩

end ExchangeTable

namespace RelayId

theorem pick?_spec {accept : RelayId → Bool} {words rest : List UInt32} {picked : RelayId}
    (picks : pick? accept words = some (picked, rest)) : picked ≠ 0 ∧ accept picked = true := by
  induction words with
  | nil => cases picks
  | cons word words ih =>
    unfold pick? at picks
    split at picks
    next accepted =>
      cases picks
      exact accepted
    next => exact ih picks

end RelayId

namespace Agent
open ExchangeTable (Change)

theorem addExchange?_cases {agent after : Agent} {link : Link} {block : AssignBlock} {now : Micros}
    {words rest : List UInt32} {result : Except Verdict (RelayId × RelayId)}
    (added : agent.addExchange? link block now words = some (after, result, rest)) :
    after = agent ∧ result = .error .relayExchangeLimit ∨
    ∃ inner outer, result = .ok (inner, outer) ∧ inner ∉ agent.table.ids ∧ outer ∉ agent.table.ids ∧ inner ≠ outer ∧
      inner ≠ 0 ∧ outer ≠ 0 ∧
      after = { agent with
        table := agent.table.insert (Exchange.start inner outer link block agent.config.toAgentLimits now) } := by
  unfold addExchange? at added
  split at added
  next =>
    cases added
    exact Or.inl ⟨rfl, rfl⟩
  next =>
    obtain ⟨⟨inner, outer, rest⟩, fresh, added⟩ := Option.bind_eq_some_iff.mp added
    cases added
    obtain ⟨⟨_, words⟩, first, fresh⟩ := Option.bind_eq_some_iff.mp fresh
    obtain ⟨⟨_, words⟩, second, fresh⟩ := Option.bind_eq_some_iff.mp fresh
    cases fresh
    obtain ⟨some, unused⟩ := RelayId.pick?_spec first
    obtain ⟨other, free⟩ := RelayId.pick?_spec second
    simp only [Bool.and_eq_true, Bool.not_eq_true', decide_eq_true_eq] at unused free
    refine Or.inr ⟨inner, outer, rfl, ?_, ?_, Ne.symm free.2, some, other, rfl⟩
    · rw [← ExchangeTable.contains_iff_mem_ids, unused]
      exact Bool.false_ne_true
    · rw [← ExchangeTable.contains_iff_mem_ids, free.1]
      exact Bool.false_ne_true

theorem setup_cases (agent : Agent) (connectionId : UInt64) (block : SetupBlock) (now : Micros) :
    (agent.setup connectionId block now).2 ≠ .success ∧ (agent.setup connectionId block now).1 = agent ∨
    (agent.setup connectionId block now).2 = .success ∧ ∃ exchange, agent.owned? connectionId block.innerId = some exchange ∧
      (agent.setup connectionId block now).1.table =
        agent.table.replace ((exchange.bind block.endpoint block.key).touch now) := by
  unfold setup
  split
  next =>
    split
    next exchange owned => exact Or.inr ⟨rfl, exchange, owned, rfl⟩
    next => exact Or.inl ⟨nofun, rfl⟩
  next => exact Or.inl ⟨nofun, rfl⟩

theorem mem_of_owned? {agent : Agent} {connectionId : UInt64} {innerId : RelayId} {exchange : Exchange}
    (owned : agent.owned? connectionId innerId = some exchange) :
    exchange ∈ agent.table.exchanges ∧ exchange.innerId = innerId ∧ exchange.link.connectionId = connectionId := by
  unfold owned? at owned
  split at owned
  next found =>
    obtain ⟨member, same⟩ := ExchangeTable.mem_of_find? found
    split at owned
    next own =>
      cases owned
      exact ⟨member, same.symm, own⟩
    next => cases owned
  next => cases owned

theorem charge_change {agent : Agent} {old exchange : Exchange} (present : old ∈ agent.table.exchanges)
    (same : exchange = old ∨ ∃ now, exchange = { old with lastAdmitted := now }) (now : Micros) :
    Change agent.table (agent.charge exchange now).agent.table := by
  unfold charge
  split
  next paid spends =>
    unfold Exchange.spend? at spends
    split at spends
    next => cases spends
    next =>
      cases spends
      obtain rfl | ⟨_, rfl⟩ := same
      · exact .updated present rfl rfl rfl rfl
      · exact .updated present rfl rfl rfl rfl
  next => exact .removed [exchange]

theorem screen_change (agent : Agent) (sender : Endpoint) (relayId : RelayId) (content : Bytes) (now : Micros) :
    Change agent.table (agent.screen sender relayId content now).agent.table := by
  have screened := agent.screen_screened sender relayId content now
  generalize agent.admits sender relayId content now = admits, agent.screen sender relayId content now = done at screened
  cases screened with
  | refused config table => exact table ▸ .same
  | admitted passage found config table same =>
    rw [← table]
    refine charge_change (table ▸ (ExchangeTable.mem_of_find? found).1) ?_ now
    exact same.imp_right fun same => ⟨now, same⟩

/-- A packet changes exchanges at the gate or nowhere. -/
theorem process_table_cases (agent : Agent) (resolve : Resolver) (salt : UInt32) (sender : Endpoint) (relayId : RelayId)
    (datagram : Bytes) (now : Micros) :
    let done := agent.process resolve salt sender relayId datagram now
    done.agent.table = agent.table ∨
      done.agent.table = (agent.screen sender relayId (datagram.drop RelayIds.size) now).agent.table := by
  unfold process
  split
  · exact Or.inl rfl
  · split
    · exact Or.inl rfl
    · right
      simp only
      split
      · rfl
      · rfl
      · exact pass_table _ _ _ _ _ _

theorem process_change (agent : Agent) (resolve : Resolver) (salt : UInt32) (sender : Endpoint) (relayId : RelayId)
    (datagram : Bytes) (now : Micros) :
    Change agent.table (agent.process resolve salt sender relayId datagram now).agent.table := by
  obtain same | screened := agent.process_table_cases resolve salt sender relayId datagram now
  · rw [same]
    exact .same
  · rw [screened]
    exact agent.screen_change sender relayId (datagram.drop RelayIds.size) now

theorem credit_exchange {exchange richer : Exchange} {points limit credited : Int64}
    (credits : exchange.credit points limit = .ok (richer, credited)) :
    ∃ total, richer = { exchange with points := total } := by
  unfold Exchange.credit at credits
  cases room : Checked.sub limit exchange.points with
  | error fault => simp [room, bind, Except.bind] at credits
  | ok room' =>
    cases sum : Checked.add exchange.points (max (min points room') 0) with
    | error fault => simp [room, sum, bind, Except.bind] at credits
    | ok total =>
      simp only [room, sum, bind, Except.bind, pure, Except.pure, Except.ok.injEq, Prod.mk.injEq] at credits
      exact ⟨total, credits.1.symm⟩

theorem addPoints_cases {agent after : Agent} {relayId : RelayId} {points credited : Int64}
    (adds : agent.addPoints relayId points = .ok (after, credited)) : after = agent ∨
    ∃ exchange total, exchange ∈ agent.table.exchanges ∧
      after = agent.onTable (agent.table.replace { exchange with points := total }) := by
  unfold addPoints at adds
  split at adds
  next exchange got =>
    cases credits : exchange.credit points agent.config.maxPoints with
    | error fault => simp [credits, bind, Except.bind] at adds
    | ok done =>
      obtain ⟨richer, added⟩ := done
      simp only [credits, bind, Except.bind, pure, Except.pure, Except.ok.injEq, Prod.mk.injEq] at adds
      obtain ⟨rfl, _⟩ := adds
      obtain ⟨total, rfl⟩ := credit_exchange credits
      exact Or.inr ⟨exchange, total, ExchangeTable.mem_of_get? got, rfl⟩
  next =>
    cases adds
    exact Or.inl rfl

theorem clean_cases {agent : Agent} {isClosed : LinkRef → Bool} {now : Micros} {done : AgentStep Nat}
    (cleaned : agent.clean isClosed now = .ok done) :
    ∃ gone : List Exchange, done.agent = agent.onTable (gone.foldl ExchangeTable.erase agent.table) := by
  cases expired : agent.table.expired isClosed now with
  | error fault => simp [clean, expired, bind, Except.bind] at cleaned
  | ok gone =>
    simp only [clean, expired, bind, Except.bind, pure, Except.pure, Except.ok.injEq] at cleaned
    exact ⟨gone, cleaned ▸ rfl⟩

def added? (agent : Agent) : Operation → Option RelayId
  | .add link block now words =>
    match agent.addExchange? link block now words with
    | some (_, .ok (inner, _), _) => some inner
    | _ => none
  | _ => none

/-- An operation adds an exchange that is bound to nobody and brings two fresh ids, or somebody has one set up, or it
changes the exchanges in one of the other ways. -/
theorem after_cases (agent : Agent) (operation : Operation) :
    (∃ exchange, agent.added? operation = some exchange.innerId ∧ exchange.innerId ∉ agent.table.ids ∧
      exchange.outerId ∉ agent.table.ids ∧ exchange.innerId ≠ exchange.outerId ∧
      (exchange.innerId ≠ 0 ∧ exchange.outerId ≠ 0) ∧ exchange.outer = none ∧
      (agent.after operation).table = agent.table.insert exchange) ∨
    agent.added? operation = none ∧ ((∃ id block now, operation = .setup id block now) ∨
      Change agent.table (agent.after operation).table) := by
  cases operation with
  | add link block now words =>
    cases added : agent.addExchange? link block now words with
    | none =>
      simp only [after, added?, added, Option.map_none, Option.getD_none]
      exact Or.inr ⟨trivial, Or.inr .same⟩
    | some done =>
      obtain ⟨next, result, rest⟩ := done
      simp only [after, added?, added, Option.map_some, Option.getD_some]
      obtain ⟨rfl, rfl⟩ | ⟨inner, outer, rfl, unused, free, different, some, named, rfl⟩ := addExchange?_cases added
      · exact Or.inr ⟨rfl, Or.inr .same⟩
      · exact Or.inl ⟨_, rfl, unused, free, different, ⟨some, named⟩, rfl, rfl⟩
  | setup id block now => exact Or.inr ⟨rfl, Or.inl ⟨id, block, now, rfl⟩⟩
  | ping connectionId innerId now =>
    refine Or.inr ⟨rfl, Or.inr ?_⟩
    simp only [after, ping]
    split
    next exchange owned => exact .updated (mem_of_owned? owned).1 rfl rfl rfl rfl
    next => exact .same
  | credit relayId points =>
    refine Or.inr ⟨rfl, Or.inr ?_⟩
    cases adds : agent.addPoints relayId points with
    | error fault =>
      simp only [after, adds, Except.toOption, Option.map_none, Option.getD_none]
      exact .same
    | ok done =>
      simp only [after, adds, Except.toOption, Option.map_some, Option.getD_some]
      obtain ⟨next, credited⟩ := done
      obtain rfl | ⟨exchange, total, present, rfl⟩ := addPoints_cases adds
      · exact .same
      · exact .updated present rfl rfl rfl rfl
  | decrement relayId now =>
    refine Or.inr ⟨rfl, Or.inr ?_⟩
    simp only [after, decrement]
    split
    next exchange got =>
      exact charge_change (ExchangeTable.mem_of_get? got) (Or.inl rfl) now
    next => exact .same
  | remove relayId =>
    refine Or.inr ⟨rfl, Or.inr ?_⟩
    simp only [after, remove]
    split
    next exchange got => exact .removed [exchange]
    next => exact .same
  | clean isClosed now =>
    refine Or.inr ⟨rfl, Or.inr ?_⟩
    cases cleaned : agent.clean isClosed now with
    | error fault =>
      simp only [after, cleaned, Except.toOption, Option.map_none, Option.getD_none]
      exact .same
    | ok step =>
      simp only [after, cleaned, Except.toOption, Option.map_some, Option.getD_some]
      obtain ⟨gone, rest⟩ := clean_cases cleaned
      rw [rest]
      exact .removed gone
  | process resolve salt sender relayId datagram now =>
    exact Or.inr ⟨rfl, Or.inr (agent.process_change resolve salt sender relayId datagram now)⟩
  | next =>
    refine Or.inr ⟨rfl, Or.inr ?_⟩
    simp only [after, next?]
    split <;> exact .same
  | drain => exact Or.inr ⟨rfl, Or.inr .same⟩

theorem setup_sound {agent : Agent} (sound : agent.table.Sound) (connectionId : UInt64) (block : SetupBlock) (now : Micros) :
    (agent.setup connectionId block now).1.table.Sound := by
  obtain ⟨_, same⟩ | ⟨_, exchange, owned, table⟩ := agent.setup_cases connectionId block now
  · rwa [same]
  · rw [table]
    exact sound.replace (mem_of_owned? owned).1 rfl rfl

theorem after_sound {agent : Agent} (sound : agent.table.Sound) (operation : Operation) :
    (agent.after operation).table.Sound := by
  obtain ⟨exchange, _, inner, outer, different, named, _, table⟩ | ⟨_, ⟨id, block, now, rfl⟩ | change⟩ :=
    agent.after_cases operation
  · rw [table]
    exact sound.insert inner outer different named
  · exact setup_sound sound id block now
  · exact change.sound sound

private theorem process_config (agent : Agent) (resolve : Resolver) (salt : UInt32) (sender : Endpoint) (relayId : RelayId)
    (datagram : Bytes) (now : Micros) :
    (agent.process resolve salt sender relayId datagram now).agent.config = agent.config := by
  have guarded : (agent.screen sender relayId (datagram.drop RelayIds.size) now).agent.config = agent.config := by
    have screened := agent.screen_screened sender relayId (datagram.drop RelayIds.size) now
    generalize agent.admits sender relayId (datagram.drop RelayIds.size) now = admits,
      agent.screen sender relayId (datagram.drop RelayIds.size) now = done at screened
    cases screened with
    | refused config => exact config
    | admitted passage found config => exact (charge_config _ _ _).trans config
  unfold process
  split
  · rfl
  · split
    · rfl
    · simp only
      split
      · exact guarded
      · exact guarded
      · exact (pass_handled _ _ _ _ _ _).same_config.trans guarded

private theorem charge_onTable (agent : Agent) (exchange : Exchange) (now : Micros) :
    ∃ table, (agent.charge exchange now).agent = agent.onTable table := by
  unfold charge
  split <;> exact ⟨_, rfl⟩

/-- Operations on exchanges leave the endpoints and the queue alone. -/
theorem after_onTable (agent : Agent) {operation : Operation} (still : operation.movesPackets = false) :
    ∃ table, agent.after operation = agent.onTable table := by
  have same : ∃ table, agent = agent.onTable table := ⟨agent.table, rfl⟩
  cases operation with
  | add link block now words =>
    cases added : agent.addExchange? link block now words with
    | none =>
      simp only [after, added, Option.map_none, Option.getD_none]
      exact same
    | some done =>
      obtain ⟨next, result, rest⟩ := done
      simp only [after, added, Option.map_some, Option.getD_some]
      obtain ⟨rfl, _⟩ | ⟨_, _, _, _, _, _, _, _, rfl⟩ := addExchange?_cases added
      · exact same
      · exact ⟨_, rfl⟩
  | setup connectionId block now =>
    simp only [after, setup]
    split
    · split
      · exact ⟨_, rfl⟩
      · exact same
    · exact same
  | ping connectionId innerId now =>
    simp only [after, ping]
    split
    · exact ⟨_, rfl⟩
    · exact same
  | credit relayId points =>
    cases adds : agent.addPoints relayId points with
    | error fault =>
      simp only [after, adds, Except.toOption, Option.map_none, Option.getD_none]
      exact same
    | ok done =>
      simp only [after, adds, Except.toOption, Option.map_some, Option.getD_some]
      obtain rfl | ⟨_, _, _, richer⟩ := addPoints_cases adds
      · exact same
      · exact ⟨_, richer⟩
  | decrement relayId now =>
    simp only [after, decrement]
    split
    · exact charge_onTable _ _ _
    · exact same
  | remove relayId =>
    simp only [after, remove]
    split
    · exact ⟨_, rfl⟩
    · exact same
  | clean isClosed now =>
    cases cleaned : agent.clean isClosed now with
    | error fault =>
      simp only [after, cleaned, Except.toOption, Option.map_none, Option.getD_none]
      exact same
    | ok done =>
      simp only [after, cleaned, Except.toOption, Option.map_some, Option.getD_some]
      obtain ⟨_, rest⟩ := clean_cases cleaned
      exact ⟨_, rest⟩
  | process | next | drain => cases still

/-- The limits an agent started with are its limits ever after. -/
theorem after_config (agent : Agent) (operation : Operation) : (agent.after operation).config = agent.config := by
  cases moves : operation.movesPackets with
  | false =>
    obtain ⟨table, same⟩ := agent.after_onTable moves
    rw [same]
    rfl
  | true =>
    cases operation with
    | process resolve salt sender relayId datagram now => exact agent.process_config resolve salt sender relayId datagram now
    | next =>
      simp only [after, next?]
      split <;> rfl
    | drain => rfl
    | _ => cases moves

end Agent
end OnionCircuit
