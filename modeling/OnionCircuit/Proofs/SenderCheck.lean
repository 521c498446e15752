import OnionCircuit.Proofs.AcceptedPackets
import OnionCircuit.Proofs.RelayVisit

/-! Which packets an exchange accepts. Those to its inner id have to come from its client. With a next hop only that
hop may send to its outer id; without one it depends on what lets strangers in. -/

namespace OnionCircuit

/-- Whether a sender is not the next hop. Who has no relay id may speak for the next hop from its address. -/
def Binding.Excludes (next : Binding) (sender : Endpoint) : Prop :=
  sender.socket ≠ next.endpoint.socket ∨ sender.relayId ≠ next.endpoint.relayId ∧ sender.relayId ≠ 0

instance (next : Binding) (sender : Endpoint) : Decidable (next.Excludes sender) :=
  inferInstanceAs (Decidable (_ ∨ _ ∧ _))

namespace Agent

/-- The agent once it has looked whether a stranger may send. -/
def looked (agent : Agent) (sender : Address) (now : Micros) : Agent :=
  { agent with cache := (agent.cache.isUnrestricted sender now).1 }

/-- Whether a stranger is let in for who he is or for what he sends. -/
def knows (agent : Agent) (exchange : Exchange) (sender : Address) (content : Bytes) (now : Micros) : Bool :=
  (agent.cache.isUnrestricted sender now).2 ||
    exchange.allowOpenSesami && ContentKind.ofContent? content == some .openSesami

theorem letIn_eq (agent : Agent) (exchange : Exchange) (sender : Address) (content : Bytes) (now : Micros) :
    agent.letIn exchange sender content now =
      (agent.looked sender now,
        if agent.knows exchange sender content now then .ok (some exchange) else exchange.admitUnknown? now) := by
  unfold letIn knows looked
  simp only
  split <;> rfl

/-- A packet that is let in costs its exchange a point. -/
def accept (agent : Agent) (exchange : Exchange) (passage : Passage) (now : Micros) :
    AgentStep (Except Fault (Except DropReason Accepted)) :=
  { agent.charge exchange now with value := .ok (.ok ⟨exchange, passage⟩) }

/-- All that screening a packet can come to. -/
inductive Gate (agent : Agent) (sender : Endpoint) (relayId : RelayId) (content : Bytes) (now : Micros) :
    AgentStep (Except Fault (Except DropReason Accepted)) → Prop
  | nobody (missing : agent.table.find? relayId = none) :
    Gate agent sender relayId content now ⟨agent, [], .ok (.error .unknownRelayId)⟩
  | foreign {exchange : Exchange} (found : agent.table.find? relayId = some (exchange, .outward))
    (other : sender ≠ exchange.link.endpoint) :
    Gate agent sender relayId content now ⟨agent, [], .ok (.error .invalidSender)⟩
  | client {exchange : Exchange} (found : agent.table.find? relayId = some (exchange, .outward))
    (own : sender = exchange.link.endpoint) :
    Gate agent sender relayId content now (agent.accept exchange .outward now)
  | excluded {exchange : Exchange} {next : Binding} (found : agent.table.find? relayId = some (exchange, .inward))
    (bound : exchange.outer = some next) (excludes : next.Excludes sender) :
    Gate agent sender relayId content now ⟨agent, [], .ok (.error .invalidSender)⟩
  | neighbour {exchange : Exchange} {next : Binding} {passage : Passage}
    (found : agent.table.find? relayId = some (exchange, .inward)) (bound : exchange.outer = some next)
    (includes : ¬ next.Excludes sender) (inward : passage ≠ .outward) :
    Gate agent sender relayId content now (agent.accept exchange passage now)
  | known {exchange : Exchange} (found : agent.table.find? relayId = some (exchange, .inward))
    (free : exchange.outer = none) (knows : agent.knows exchange (Address.ofEndpoint sender) content now = true) :
    Gate agent sender relayId content now
      ((agent.looked (Address.ofEndpoint sender) now).accept exchange (.entering (Address.ofEndpoint sender)) now)
  | newcomer {exchange admitted : Exchange} (found : agent.table.find? relayId = some (exchange, .inward))
    (free : exchange.outer = none) (unknown : agent.knows exchange (Address.ofEndpoint sender) content now = false)
    (admits : exchange.admitUnknown? now = .ok (some admitted)) :
    Gate agent sender relayId content now
      ((agent.looked (Address.ofEndpoint sender) now).accept admitted (.entering (Address.ofEndpoint sender)) now)
  | restricted {exchange : Exchange} (found : agent.table.find? relayId = some (exchange, .inward))
    (free : exchange.outer = none) (unknown : agent.knows exchange (Address.ofEndpoint sender) content now = false)
    (refuses : exchange.admitUnknown? now = .ok none) :
    Gate agent sender relayId content now
      ⟨agent.looked (Address.ofEndpoint sender) now, [], .ok (.error .restricted)⟩
  | fault {exchange : Exchange} {fault : Fault} (found : agent.table.find? relayId = some (exchange, .inward))
    (free : exchange.outer = none) (unknown : agent.knows exchange (Address.ofEndpoint sender) content now = false)
    (fails : exchange.admitUnknown? now = .error fault) :
    Gate agent sender relayId content now ⟨agent.looked (Address.ofEndpoint sender) now, [], .error fault⟩

/-- How a packet from outside is judged where no next hop is bound. -/
def judge (agent : Agent) (exchange : Exchange) (sender : Address) (content : Bytes) (now : Micros) :
    Except Fault (Except DropReason Accepted) :=
  (agent.letIn exchange sender content now).2.map fun
    | none => .error .restricted
    | some admitted => .ok ⟨admitted, .entering sender⟩

/-- Whether there is an exchange for an id that accepts what a sender sends there. -/
def admits (agent : Agent) (sender : Endpoint) (relayId : RelayId) (content : Bytes) (now : Micros) : Bool :=
  match agent.table.find? relayId with
  | none => false
  | some (exchange, .outward) => sender = exchange.link.endpoint
  | some (exchange, .inward) =>
    match exchange.outer with
    | some next => ¬ next.Excludes sender
    | none =>
      match (agent.letIn exchange (Address.ofEndpoint sender) content now).2 with
      | .ok (some _) => true
      | _ => false

/-- What may come of screening a packet. Only one that is admitted costs a point, the exchange's as it was found. -/
inductive Screened (agent : Agent) (relayId : RelayId) (now : Micros) :
    Bool → AgentStep (Except Fault (Except DropReason Accepted)) → Prop
  | refused {guarded : Agent} {judged : Except Fault (Except DropReason Accepted)}
    (config : guarded.config = agent.config) (table : guarded.table = agent.table)
    (refuses : ∀ accepted, judged ≠ .ok (.ok accepted)) : Screened agent relayId now false ⟨guarded, [], judged⟩
  | admitted {exchange owner : Exchange} {direction : Direction} {guarded : Agent} (passage : Passage)
    (found : agent.table.find? relayId = some (owner, direction)) (config : guarded.config = agent.config)
    (table : guarded.table = agent.table) (same : exchange = owner ∨ exchange = { owner with lastAdmitted := now }) :
    Screened agent relayId now true { guarded.charge exchange now with value := .ok (.ok ⟨exchange, passage⟩) }

/-- Why a packet is turned away before it costs anything. -/
inductive Bars (agent : Agent) (sender : Endpoint) (relayId : RelayId) (content : Bytes) (now : Micros) : DropReason → Prop
  | nobody (missing : agent.table.find? relayId = none) : Bars agent sender relayId content now .unknownRelayId
  | foreign {exchange : Exchange} (found : agent.table.find? relayId = some (exchange, .outward))
    (other : sender ≠ exchange.link.endpoint) : Bars agent sender relayId content now .invalidSender
  | excluded {exchange : Exchange} {next : Binding} (found : agent.table.find? relayId = some (exchange, .inward))
    (bound : exchange.outer = some next) (excludes : next.Excludes sender) :
    Bars agent sender relayId content now .invalidSender
  | restricted {exchange : Exchange} (found : agent.table.find? relayId = some (exchange, .inward))
    (free : exchange.outer = none) (unknown : agent.knows exchange (Address.ofEndpoint sender) content now = false)
    (refuses : exchange.admitUnknown? now = .ok none) : Bars agent sender relayId content now .restricted

section
variable (agent : Agent) {exchange : Exchange} {relayId : RelayId}

theorem screen_gate (agent : Agent) (sender : Endpoint) (relayId : RelayId) (content : Bytes) (now : Micros) :
    agent.Gate sender relayId content now (agent.screen sender relayId content now) := by
  unfold screen
  cases found : agent.table.find? relayId with
  | none => exact .nobody found
  | some owner =>
    obtain ⟨exchange, direction⟩ := owner
    cases direction with
    | outward =>
      simp only
      split
      next own => exact .client found own
      next other => exact .foreign found other
    | inward =>
      cases bound : exchange.outer with
      | some next =>
        simp only [bound]
        split
        next apart => exact .excluded found bound (Or.inl apart)
        next here =>
          split
          next same => exact .neighbour found bound (by simp [Binding.Excludes, here, same]) nofun
          next other =>
            split
            next unnamed => exact .neighbour found bound (by simp [Binding.Excludes, here, unnamed]) nofun
            next named => exact .excluded found bound (Or.inr ⟨other, named⟩)
      | none =>
        simp only [bound, letIn_eq]
        cases knows : agent.knows exchange (Address.ofEndpoint sender) content now with
        | true => exact .known found bound knows
        | false =>
          simp only [Bool.false_eq_true, if_false]
          cases admits : exchange.admitUnknown? now with
          | error fault => exact .fault found bound knows admits
          | ok admitted =>
            cases admitted with
            | none => exact .restricted found bound knows admits
            | some admitted => exact .newcomer found bound knows admits

theorem screen_screened (sender : Endpoint) (relayId : RelayId) (content : Bytes) (now : Micros) :
    agent.Screened relayId now (agent.admits sender relayId content now) (agent.screen sender relayId content now) := by
  have gate := agent.screen_gate sender relayId content now
  generalize agent.screen sender relayId content now = done at gate
  unfold admits
  cases gate with
  | nobody missing =>
    rw [missing]
    exact .refused rfl rfl fun _ same => nomatch same
  | foreign found other =>
    simp only [found, other, decide_false]
    exact .refused rfl rfl fun _ same => nomatch same
  | client found own =>
    simp only [found, own, decide_true]
    exact .admitted .outward found rfl rfl (Or.inl rfl)
  | excluded found bound excludes =>
    simp only [found, bound, excludes, not_true_eq_false, decide_false]
    exact .refused rfl rfl fun _ same => nomatch same
  | neighbour found bound includes =>
    simp only [found, bound, includes, not_false_eq_true, decide_true]
    exact .admitted _ found rfl rfl (Or.inl rfl)
  | known found free knows =>
    simp only [found, free, letIn_eq, knows, if_true]
    exact .admitted _ found rfl rfl (Or.inl rfl)
  | newcomer found free unknown admits =>
    simp only [found, free, letIn_eq, unknown, Bool.false_eq_true, if_false, admits]
    exact .admitted _ found rfl rfl (Or.inr (admitUnknown?_exchange admits))
  | restricted found free unknown refuses =>
    simp only [found, free, letIn_eq, unknown, Bool.false_eq_true, if_false, refuses]
    exact .refused rfl rfl fun _ same => nomatch same
  | fault found free unknown fails =>
    simp only [found, free, letIn_eq, unknown, Bool.false_eq_true, if_false, fails]
    exact .refused rfl rfl fun _ same => nomatch same

theorem screen_unbound (found : agent.table.find? relayId = some (exchange, .inward)) (free : exchange.outer = none)
    (sender : Endpoint) (content : Bytes) (now : Micros) :
    (agent.screen sender relayId content now).value = agent.judge exchange (Address.ofEndpoint sender) content now := by
  unfold screen judge
  rw [found]
  simp only [free]
  generalize agent.letIn exchange (Address.ofEndpoint sender) content now = judged
  obtain ⟨guarded, fault | _ | admitted⟩ := judged <;> rfl

theorem screen_bars_iff {sender : Endpoint} {content : Bytes} {now : Micros} {reason : DropReason} :
    (agent.screen sender relayId content now).value = .ok (.error reason) ↔ agent.Bars sender relayId content now reason := by
  constructor
  · intro refused
    have gate := agent.screen_gate sender relayId content now
    generalize agent.screen sender relayId content now = done at gate refused
    cases gate with
    | nobody missing =>
      cases refused
      exact .nobody missing
    | foreign found other =>
      cases refused
      exact .foreign found other
    | excluded found bound excludes =>
      cases refused
      exact .excluded found bound excludes
    | restricted found free unknown refuses =>
      cases refused
      exact .restricted found free unknown refuses
    | client | neighbour | known | newcomer | fault => cases refused
  · intro bars
    cases bars with
    | nobody missing => simp only [screen, missing]
    | foreign found other => simp only [screen, found, other, if_false]
    | @excluded exchange next found bound excludes =>
      simp only [screen, found, bound]
      by_cases apart : sender.socket ≠ next.endpoint.socket
      · rw [if_pos apart]
      · obtain ⟨other, named⟩ := excludes.resolve_left apart
        rw [if_neg apart, if_neg other, if_neg named]
    | restricted found free unknown refuses =>
      simp only [screen, found, free, letIn_eq, unknown, Bool.false_eq_true, if_false, refuses]

/-- What refuses a packet before it costs anything is what the exchange says of its sender. -/
theorem process_gate_iff {reason : DropReason} (gate : reason.atGate = true) (named : relayId ≠ 0)
    (resolve : Resolver) (salt : UInt32) (sender : Endpoint) (now : Micros) {datagram : Bytes} (long : RelayIds.size ≤ datagram.length) :
    (agent.process resolve salt sender relayId datagram now).value = .ok (.dropped reason) ↔
      (agent.screen sender relayId (datagram.drop RelayIds.size) now).value = .ok (.error reason) := by
  unfold process
  rw [if_neg named, if_neg (Nat.not_lt.mpr long)]
  cases screened : (agent.screen sender relayId (datagram.drop RelayIds.size) now).value with
  | error fault => simp only [screened, reduceCtorEq]
  | ok judged =>
    cases judged with
    | error other => simp only [screened, Except.ok.injEq, RelayOutcome.dropped.injEq, Except.error.injEq]
    | ok accepted =>
      have handled := pass_handled (agent.screen sender relayId (datagram.drop RelayIds.size) now).agent resolve salt
        accepted datagram now
      simp only [screened, Except.ok.injEq, reduceCtorEq, iff_false]
      intro dropped
      rw [handled.reason reason dropped] at gate
      cases gate

theorem process_invalidSender_iff (found : agent.table.find? relayId = some (exchange, .inward)) (named : relayId ≠ 0)
    (resolve : Resolver) (salt : UInt32) (sender : Endpoint) (now : Micros) {datagram : Bytes}
    (long : RelayIds.size ≤ datagram.length) :
    (agent.process resolve salt sender relayId datagram now).value = .ok (.dropped .invalidSender) ↔
      ∃ next, exchange.outer = some next ∧ next.Excludes sender := by
  rw [agent.process_gate_iff rfl named resolve salt sender now long, screen_bars_iff]
  constructor
  · intro bars
    cases bars with
    | foreign other => cases found.symm.trans other
    | excluded same bound excludes =>
      cases found.symm.trans same
      exact ⟨_, bound, excludes⟩
  · rintro ⟨next, bound, excludes⟩
    exact .excluded found bound excludes

end
end Agent

end OnionCircuit
