import OnionCircuit.Relay.Forward

/-! What becomes of a packet that an exchange has accepted. It no longer matters which exchanges there are or what
points they have, none of them is touched, and the packet is not refused any more for who sent it. -/

namespace OnionCircuit

/-- The reasons for which a packet is refused before it costs anything. -/
def DropReason.atGate : DropReason → Bool
  | .notRelayed | .unknownRelayId | .invalidSender | .restricted => true
  | _ => false

/-- An exchange with another number of points. -/
def Exchange.reprice (exchange : Exchange) (points : Int64) : Exchange := { exchange with points := points }

@[simp] theorem Exchange.reprice_link (exchange : Exchange) (points : Int64) :
    (exchange.reprice points).link = exchange.link := rfl

@[simp] theorem Exchange.reprice_outer (exchange : Exchange) (points : Int64) :
    (exchange.reprice points).outer = exchange.outer := rfl

def Agent.onTable (agent : Agent) (table : ExchangeTable) : Agent := { agent with table := table }

def AgentStep.onTable {α : Type} (step : AgentStep α) (table : ExchangeTable) : AgentStep α :=
  { step with agent := step.agent.onTable table }

namespace Agent

section
variable (agent : Agent) (table : ExchangeTable)

theorem enqueue_onTable (socket : SocketAddress) (datagram : Bytes) :
    (agent.onTable table).enqueue socket datagram =
      ((agent.enqueue socket datagram).1.onTable table, (agent.enqueue socket datagram).2) := by
  by_cases large : Datagram.largest < datagram.length
  · simp only [enqueue, large, if_true]
  · by_cases full : agent.config.queueCapacity.toNat ≤ agent.queue.length
    · simp only [enqueue, onTable, large, full, if_true, if_false]
    · simp only [enqueue, onTable, large, full, if_false]

theorem forward_onTable (key : TagKey) (source : RelayId) (next : Endpoint) (packet : Bytes) :
    (agent.onTable table).forward key source next packet =
      ((agent.forward key source next packet).1.onTable table, (agent.forward key source next packet).2) := by
  unfold forward
  split
  · exact agent.enqueue_onTable table _ _
  · rfl

theorem exit_onTable (resolve : Resolver) (source : RelayId) (address : Address) (content : Bytes) (now : Micros) :
    (agent.onTable table).exit resolve source address content now =
      (agent.exit resolve source address content now).onTable table := by
  have sends (cache : EndpointCache) (socket : SocketAddress) (datagram : Bytes) :=
    enqueue_onTable { agent with cache := cache } table socket datagram
  simp only [onTable] at sends
  simp only [exit, onTable]
  split
  · rfl
  · split
    · split
      · simp only [sends]
        rfl
      · rfl
    · simp only [sends]
      rfl

theorem pass_onTable (resolve : Resolver) (salt : UInt32) (accepted : Accepted) (datagram : Bytes) (now : Micros) :
    (agent.onTable table).pass resolve salt accepted datagram now =
      (agent.pass resolve salt accepted datagram now).onTable table := by
  unfold pass
  split
  next =>
    unfold passOutward
    split
    · rfl
    · split
      · rfl
      · split
        · split
          · rfl
          · simp only
            split
            · rfl
            · exact agent.exit_onTable table _ _ _ _ _
        · split
          · rfl
          · simp only [forward_onTable, AgentStep.onTable]
  next =>
    unfold passRelayed
    split
    · rfl
    · split
      · rfl
      · simp only [forward_onTable, AgentStep.onTable]
  next =>
    unfold passEntering
    simp only [forward_onTable, AgentStep.onTable]

theorem pass_table (resolve : Resolver) (salt : UInt32) (accepted : Accepted) (datagram : Bytes) (now : Micros) :
    (agent.pass resolve salt accepted datagram now).agent.table = agent.table :=
  congrArg (·.agent.table) (agent.pass_onTable agent.table resolve salt accepted datagram now)

theorem pass_reprice (resolve : Resolver) (salt : UInt32) (exchange : Exchange) (points : Int64) (passage : Passage)
    (datagram : Bytes) (now : Micros) :
    agent.pass resolve salt ⟨exchange.reprice points, passage⟩ datagram now =
      agent.pass resolve salt ⟨exchange, passage⟩ datagram now := by
  cases passage with
  | outward => rfl
  | relayed next => rfl
  | entering sender => simp only [pass, passEntering, Exchange.reprice]

/-- What an accepted packet leaves as it was, and what it does not end as. -/
structure Handled (config : AgentConfig) (done : Processed) : Prop where
  same_config : done.agent.config = config
  open_links : ∀ link, AgentEffect.close link ∉ done.effects
  reason : ∀ reason, done.value = .ok (.dropped reason) → reason.atGate = false

private theorem handled_refuse {reason : DropReason} (late : reason.atGate = false) :
    Handled agent.config (agent.refuse reason) := by
  refine ⟨rfl, fun _ => List.not_mem_nil, ?_⟩
  intro other same
  cases same
  exact late

private theorem handled_enqueue (socket : SocketAddress) (datagram : Bytes) {effects : List AgentEffect}
    (opens : ∀ link, .close link ∉ effects) :
    Handled agent.config ⟨(agent.enqueue socket datagram).1, effects, .ok (agent.enqueue socket datagram).2⟩ := by
  unfold enqueue
  split
  · exact ⟨rfl, opens, fun _ same => by cases same; rfl⟩
  · split
    · exact ⟨rfl, opens, fun _ same => by cases same; rfl⟩
    · exact ⟨rfl, opens, fun _ same => nomatch same⟩

private theorem handled_forward (key : TagKey) (source : RelayId) (next : Endpoint) (packet : Bytes)
    {effects : List AgentEffect} (opens : ∀ link, .close link ∉ effects) :
    let sent := agent.forward key source next packet
    Handled agent.config ⟨sent.1, effects, .ok sent.2⟩ := by
  unfold forward
  split
  · exact agent.handled_enqueue _ _ opens
  · exact ⟨rfl, opens, fun _ same => by cases same; rfl⟩

private theorem handled_exit (resolve : Resolver) (source : RelayId) (address : Address) (content : Bytes) (now : Micros) :
    Handled agent.config (agent.exit resolve source address content now) := by
  unfold exit
  generalize agent.cache.lookup resolve address = found
  have opens (link : LinkRef) : .close link ∉ if found.asked then [AgentEffect.resolve address] else [] := by
    split <;> simp
  have sends (cache : EndpointCache) (endpoint : Endpoint) := handled_enqueue { agent with cache := cache }
    endpoint.socket ((RelayIds.mk source endpoint.relayId).bytes ++ content) opens
  simp only
  split
  next => exact ⟨rfl, opens, fun _ same => by cases same; rfl⟩
  next endpoint _ =>
    split
    · split
      next deadline _ => exact sends (found.cache.unrestrict address deadline).1 endpoint
      next => exact ⟨rfl, opens, fun _ same => nomatch same⟩
    · exact sends found.cache endpoint

theorem pass_handled (resolve : Resolver) (salt : UInt32) (accepted : Accepted) (datagram : Bytes) (now : Micros) :
    Handled agent.config (agent.pass resolve salt accepted datagram now) := by
  unfold pass
  split
  next =>
    unfold passOutward
    split
    · exact agent.handled_refuse rfl
    · split
      · exact agent.handled_refuse rfl
      · split
        · split
          · exact agent.handled_refuse rfl
          · simp only
            split
            · exact ⟨rfl, fun _ => List.not_mem_nil, fun _ same => nomatch same⟩
            · exact agent.handled_exit _ _ _ _ _
        · split
          · exact agent.handled_refuse rfl
          · exact agent.handled_forward _ _ _ _ fun _ => List.not_mem_nil
  next =>
    unfold passRelayed
    split
    · exact agent.handled_refuse rfl
    · split
      · exact agent.handled_refuse rfl
      · exact agent.handled_forward _ _ _ _ fun _ => List.not_mem_nil
  next =>
    have opens (link : LinkRef) : AgentEffect.close link ∉ [AgentEffect.salt] := by simp
    unfold passEntering
    simp only
    exact agent.handled_forward _ _ _ _ opens

end
end Agent
end OnionCircuit
