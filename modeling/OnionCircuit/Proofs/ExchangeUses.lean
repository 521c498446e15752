import Mathlib.Data.List.Induction
import OnionCircuit.Proofs.AgentHistory
import OnionCircuit.Proofs.ExchangeOrigins

/-! What counts as a use of an exchange. What an exchange knows of its next hop, and of when it was in use, is what the last
operation has left there that had something to say about it. -/

namespace OnionCircuit

inductive Use
  | opened
  | bound (next : Binding)
  | pinged
  /-- For a packet, or without one. -/
  | paid
deriving DecidableEq

/-- What a use says about the next hop, if it says anything: there is none, or which one it is. -/
def Use.outer? : Use → Option (Option Binding)
  | .opened => some none
  | .bound next => some (some next)
  | .pinged | .paid => none

namespace Agent

def owner? (agent : Agent) (relayId : RelayId) : Option RelayId := (agent.table.get? relayId).map Exchange.innerId

/-- How an operation uses the exchange with an inner id. What is refused is no use, and neither is a credit. -/
def use? (agent : Agent) (operation : Operation) (innerId : RelayId) : Option Use :=
  match operation with
  | .add .. => if agent.added? operation = some innerId then some .opened else none
  | .setup connectionId block now =>
    if (agent.setup connectionId block now).2 = .success ∧ block.innerId = innerId then
      some (.bound ⟨block.endpoint, block.key⟩)
    else none
  | .ping connectionId pinged now =>
    if (agent.ping connectionId pinged now).2.isSome ∧ pinged = innerId then some .pinged else none
  | .decrement relayId now =>
    if (agent.decrement relayId now).value ∧ agent.owner? relayId = some innerId then some .paid else none
  | .process _ _ sender relayId datagram now =>
    if agent.passes sender relayId datagram now ∧ agent.owner? relayId = some innerId then some .paid else none
  | .credit .. | .remove .. | .clean .. | .next | .drain => none

/-- What an operation can have to do with an exchange that is there afterwards. -/
inductive Tends (agent : Agent) (operation : Operation) (exchange : Exchange) : Prop
  | tells {use : Use} (uses : agent.use? operation exchange.innerId = some use)
    (time : operation.time? = some exchange.lastAccess) (told : use.outer? = some exchange.outer) :
    Tends agent operation exchange
  | touches {use : Use} {old : Exchange} (uses : agent.use? operation exchange.innerId = some use)
    (time : operation.time? = some exchange.lastAccess) (untold : use.outer? = none)
    (present : old ∈ agent.table.exchanges) (inner : old.innerId = exchange.innerId) (outer : old.outer = exchange.outer) :
    Tends agent operation exchange
  | spares {old : Exchange} (unused : agent.use? operation exchange.innerId = none) (present : old ∈ agent.table.exchanges)
    (inner : old.innerId = exchange.innerId) (outer : old.outer = exchange.outer)
    (lastAccess : old.lastAccess = exchange.lastAccess) : Tends agent operation exchange

section
variable {agent : Agent} {operation : Operation} {exchange : Exchange}

private theorem Tends.unused (unused : agent.use? operation exchange.innerId = none)
    (present : exchange ∈ agent.table.exchanges) : agent.Tends operation exchange :=
  .spares unused present rfl rfl rfl

private theorem tends_add {link : Link} {block : AssignBlock} {now : Micros} {words : List UInt32}
    (member : exchange ∈ (agent.after (.add link block now words)).table.exchanges) :
    agent.Tends (.add link block now words) exchange := by
  cases added : agent.addExchange? link block now words with
  | none =>
    simp only [after, added, Option.map_none, Option.getD_none] at member
    apply Tends.unused _ member
    apply if_neg
    simp only [added?, added, reduceCtorEq, not_false_eq_true]
  | some done =>
    obtain ⟨next, result, rest⟩ := done
    simp only [after, added, Option.map_some, Option.getD_some] at member
    obtain ⟨rfl, rfl⟩ | ⟨inner, outer, rfl, unused, _, _, _, _, rfl⟩ := addExchange?_cases added
    · apply Tends.unused _ member
      apply if_neg
      simp only [added?, added, reduceCtorEq, not_false_eq_true]
    · obtain old | new := List.mem_append.mp member
      · have other : inner ≠ exchange.innerId := by
          intro same
          apply unused
          exact ExchangeTable.mem_ids.mpr ⟨exchange, old, Or.inl same⟩
        apply Tends.unused _ old
        apply if_neg
        simp only [added?, added, Option.some.injEq, other, not_false_eq_true]
      · cases List.mem_singleton.mp new
        have uses : agent.use? (.add link block now words) inner = some .opened := by
          apply if_pos
          simp only [added?, added]
        exact .tells uses rfl rfl

private theorem tends_setup {connectionId : UInt64} {block : SetupBlock} {now : Micros}
    (member : exchange ∈ (agent.after (.setup connectionId block now)).table.exchanges) :
    agent.Tends (.setup connectionId block now) exchange := by
  obtain ⟨refused, same⟩ | ⟨accepted, owner, owned, table⟩ := agent.setup_cases connectionId block now
  · rw [after, same] at member
    apply Tends.unused _ member
    exact if_neg fun uses => refused uses.1
  · rw [after, table] at member
    obtain ⟨present, own, _⟩ := mem_of_owned? owned
    obtain rfl | ⟨old, other⟩ := ExchangeTable.mem_replace member
    · have uses : agent.use? (.setup connectionId block now) owner.innerId = some (.bound ⟨block.endpoint, block.key⟩) :=
        if_pos ⟨accepted, own.symm⟩
      exact .tells uses rfl rfl
    · apply Tends.unused _ old
      apply if_neg
      intro uses
      exact other (uses.2.symm.trans own.symm)

private theorem tends_ping {connectionId : UInt64} {innerId : RelayId} {now : Micros}
    (member : exchange ∈ (agent.after (.ping connectionId innerId now)).table.exchanges) :
    agent.Tends (.ping connectionId innerId now) exchange := by
  cases owned : agent.owned? connectionId innerId with
  | none =>
    simp only [after, ping, owned] at member
    apply Tends.unused _ member
    apply if_neg
    simp only [ping, owned, Option.isSome_none, Bool.false_eq_true, false_and, not_false_eq_true]
  | some owner =>
    simp only [after, ping, owned] at member
    obtain ⟨present, own, _⟩ := mem_of_owned? owned
    obtain rfl | ⟨old, other⟩ := ExchangeTable.mem_replace member
    · have uses : agent.use? (.ping connectionId innerId now) owner.innerId = some .pinged := by
        apply if_pos
        simp only [ping, owned, Option.isSome_some, true_and]
        exact own.symm
      exact .touches uses rfl rfl present rfl rfl
    · apply Tends.unused _ old
      apply if_neg
      intro uses
      exact other (uses.2.symm.trans own.symm)

private theorem tends_credit {relayId : RelayId} {points : Int64}
    (member : exchange ∈ (agent.after (.credit relayId points)).table.exchanges) :
    agent.Tends (.credit relayId points) exchange := by
  cases adds : agent.addPoints relayId points with
  | error fault =>
    simp only [after, adds] at member
    exact .unused rfl member
  | ok done =>
    obtain ⟨next, credited⟩ := done
    simp only [after, adds] at member
    obtain rfl | ⟨old, total, present, rfl⟩ := addPoints_cases adds
    · exact .unused rfl member
    · obtain rfl | ⟨other, _⟩ := ExchangeTable.mem_replace member
      · exact .spares rfl present rfl rfl rfl
      · exact .unused rfl other

/-- Whoever pays with an exchange uses that one and no other. -/
private theorem tends_charged {owner newer : Exchange} {guarded : Agent} {now : Micros}
    (member : exchange ∈ (guarded.charge newer now).agent.table.exchanges) (present : owner ∈ agent.table.exchanges)
    (same : guarded.table = agent.table) (inner : newer.innerId = owner.innerId) (outer : newer.outer = owner.outer)
    (time : operation.time? = some now)
    (pays : ∀ paid, newer.spend? now = some paid → agent.use? operation owner.innerId = some .paid)
    (others : ∀ innerId ≠ owner.innerId, agent.use? operation innerId = none) : agent.Tends operation exchange := by
  obtain spends | ⟨old, different⟩ := mem_charge member
  · have uses := pays exchange spends
    obtain rfl := Exchange.spend?_eq spends
    rw [← inner] at uses
    exact .touches uses time rfl present inner.symm outer.symm
  · rw [same] at old
    rw [inner] at different
    exact .unused (others _ different) old

private theorem tends_decrement {relayId : RelayId} {now : Micros}
    (member : exchange ∈ (agent.after (.decrement relayId now)).table.exchanges) :
    agent.Tends (.decrement relayId now) exchange := by
  cases got : agent.table.get? relayId with
  | none =>
    simp only [after, decrement, got] at member
    apply Tends.unused _ member
    apply if_neg
    simp only [decrement, got, Bool.false_eq_true, false_and, not_false_eq_true]
  | some owner =>
    have present := ExchangeTable.mem_of_get? got
    simp only [after, decrement, got] at member
    refine tends_charged member present rfl rfl rfl rfl ?_ ?_
    · intro paid spends
      apply if_pos
      simp only [decrement, got, charge, spends, owner?, Option.map_some, and_self]
    · intro innerId other
      apply if_neg
      intro uses
      rw [owner?, got] at uses
      exact other (Option.some.inj uses.2).symm

private theorem tends_process {resolve : Resolver} {salt : UInt32} {sender : Endpoint} {relayId : RelayId}
    {datagram : Bytes} {now : Micros}
    (member : exchange ∈ (agent.after (.process resolve salt sender relayId datagram now)).table.exchanges) :
    agent.Tends (.process resolve salt sender relayId datagram now) exchange := by
  cases passes : agent.passes sender relayId datagram now with
  | false =>
    rw [after, (process_refused passes resolve salt).1] at member
    apply Tends.unused _ member
    apply if_neg
    simp only [passes, Bool.false_eq_true, false_and, not_false_eq_true]
  | true =>
    obtain ⟨owner, direction, guarded, found, same, done, _⟩ := process_pays passes resolve salt
    have owns : agent.owner? relayId = some owner.innerId := by
      rw [owner?, ExchangeTable.get?, found]
      rfl
    rw [after, done] at member
    refine tends_charged member (ExchangeTable.mem_of_find? found).1 same rfl rfl rfl ?_ ?_
    · intro paid spends
      exact if_pos ⟨passes, owns⟩
    · intro innerId other
      apply if_neg
      intro uses
      exact other (Option.some.inj (owns.symm.trans uses.2)).symm

theorem after_tends (operation : Operation) (member : exchange ∈ (agent.after operation).table.exchanges) :
    agent.Tends operation exchange := by
  cases operation with
  | add link block now words => exact tends_add member
  | setup connectionId block now => exact tends_setup member
  | ping connectionId innerId now => exact tends_ping member
  | credit relayId points => exact tends_credit member
  | decrement relayId now => exact tends_decrement member
  | remove relayId =>
    simp only [after, remove] at member
    split at member
    next => exact .unused rfl (ExchangeTable.mem_erase.mp member).1
    next => exact .unused rfl member
  | clean isClosed now =>
    cases cleaned : agent.clean isClosed now with
    | error fault =>
      simp only [after, cleaned] at member
      exact .unused rfl member
    | ok done =>
      obtain ⟨gone, rest⟩ := clean_cases cleaned
      simp only [after, cleaned, Except.toOption, Option.map_some, Option.getD_some, rest] at member
      exact .unused rfl (ExchangeTable.mem_of_mem_foldl_erase member)
  | process resolve salt sender relayId datagram now => exact tends_process member
  | next =>
    have same : (agent.after .next).table = agent.table := by
      simp only [after, next?]
      split <;> rfl
    exact .unused rfl (same ▸ member)
  | drain => exact .unused rfl member

/-- What every operation leaves in an exchange, unless it puts down its own word, is what the last word before was. -/
theorem last_word {α : Type} {word : Agent → Operation → RelayId → Option α} {field : Exchange → α}
    (keeps : ∀ {agent : Agent} (operation), ∀ exchange ∈ (agent.after operation).table.exchanges,
      word agent operation exchange.innerId = some (field exchange) ∨
        word agent operation exchange.innerId = none ∧
          ∃ old ∈ agent.table.exchanges, old.innerId = exchange.innerId ∧ field old = field exchange)
    (config : AgentConfig) (operations : List Operation)
    (live : exchange ∈ ((fresh config).run operations).table.exchanges) :
    (((fresh config).history operations).filterMap fun moment => word moment.1 moment.2 exchange.innerId).getLast? =
      some (field exchange) := by
  induction operations using List.reverseRecOn generalizing exchange with
  | nil => cases live
  | append_singleton operations operation ih =>
    rw [run_append] at live
    rw [history_concat, List.filterMap_append, List.getLast?_append]
    obtain said | ⟨unsaid, old, present, inner, same⟩ := keeps operation exchange live
    · simp only [List.filterMap_cons, said, List.filterMap_nil, List.getLast?_singleton, Option.some_or]
    · simp only [List.filterMap_cons, unsaid, List.filterMap_nil, List.getLast?_nil, Option.none_or]
      rw [← inner, ← same]
      exact ih present

end
end Agent
end OnionCircuit
