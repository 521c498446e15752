import OnionCircuit.Proofs.AgentRun
import OnionCircuit.Proofs.CacheRecency
import OnionCircuit.Proofs.ExchangeLedger
import OnionCircuit.Proofs.PacketReading

/-! Runs of an agent, and what they do to the endpoints it knows. Only packets touch endpoints, each of them at most one:
the destination that content leaves for, or a stranger that sends to an exchange without a next hop. -/

namespace OnionCircuit

/-- What stops a computation, if something does. -/
def Fault.of? {α : Type} : Except Fault α → Option Fault
  | .error fault => some fault
  | .ok _ => none

namespace Agent

/-- What stops an operation; adding, assigning, setting up, removing and sending do not compute anything that can stop. -/
def fault? (agent : Agent) : Operation → Option Fault
  | .credit relayId points => Fault.of? (agent.addPoints relayId points)
  | .clean isClosed now => Fault.of? (agent.clean isClosed now)
  | .process resolve salt sender relayId datagram now =>
    Fault.of? (agent.process resolve salt sender relayId datagram now).value
  | _ => none

/-- What is said of a packet; of one that stops the agent, nothing. -/
def outcome? (agent : Agent) : Operation → Option RelayOutcome
  | .process resolve salt sender relayId datagram now =>
    (agent.process resolve salt sender relayId datagram now).value.toOption
  | _ => none

def run (agent : Agent) (operations : List Operation) : Agent := operations.foldl after agent

/-- The operations of a run, each with the agent as it was before. -/
def history (agent : Agent) : List Operation → List (Agent × Operation)
  | [] => []
  | operation :: operations => (agent, operation) :: history (agent.after operation) operations

theorem run_append (agent : Agent) (one two : List Operation) : agent.run (one ++ two) = (agent.run one).run two :=
  List.foldl_append

theorem history_concat (agent : Agent) (operations : List Operation) (operation : Operation) :
    agent.history (operations ++ [operation]) = agent.history operations ++ [(agent.run operations, operation)] := by
  induction operations generalizing agent with
  | nil => rfl
  | cons first operations ih => exact congrArg ((agent, first) :: ·) (ih (agent.after first))

theorem run_config (agent : Agent) (operations : List Operation) : (agent.run operations).config = agent.config := by
  induction operations generalizing agent with
  | nil => rfl
  | cons operation operations ih => exact (ih (agent.after operation)).trans (agent.after_config operation)

theorem run_sound {agent : Agent} (sound : agent.table.Sound) (operations : List Operation) :
    (agent.run operations).table.Sound := by
  induction operations generalizing agent with
  | nil => exact sound
  | cons operation operations ih => exact ih (after_sound sound operation)

/-- Until when the destination of a connection packet may answer, if there is a number for that time. -/
def deadline? (agent : Agent) (content : Bytes) (now : Micros) : Option Micros :=
  if ContentKind.ofContent? content = some .connect then (Checked.add now agent.config.endpointRetention).toOption else none

theorem enqueue_cache (agent : Agent) (socket : SocketAddress) (datagram : Bytes) :
    (agent.enqueue socket datagram).1.cache = agent.cache := by
  unfold enqueue
  split
  · rfl
  · split <;> rfl

theorem exit_cache (agent : Agent) (resolve : Resolver) (source : RelayId) (address : Address) (content : Bytes)
    (now : Micros) : (agent.exit resolve source address content now).agent.cache =
      agent.cache.visit resolve address (agent.deadline? content now) := by
  -- An address that does not resolve is not cached, so it has no deadline to move.
  have closed (unknown : (agent.cache.lookup resolve address).endpoint = none) (deadline : Micros) :
      ((agent.cache.lookup resolve address).cache.unrestrict address deadline).1 =
        (agent.cache.lookup resolve address).cache := by
    unfold EndpointCache.lookup at unknown ⊢
    cases known : agent.cache.get? address with
    | some entry =>
      rw [known] at unknown
      cases unknown
    | none =>
      rw [known] at unknown
      cases target : resolve address with
      | some endpoint =>
        rw [target] at unknown
        cases unknown
      | none => simp only [EndpointCache.unrestrict, known]
  unfold exit deadline? EndpointCache.visit
  generalize agent.cache.lookup resolve address = found at closed
  obtain ⟨target, cache, asked⟩ := found
  cases target with
  | none =>
    simp only [refuse]
    cases (if ContentKind.ofContent? content = some .connect then
      (Checked.add now agent.config.endpointRetention).toOption else none) with
    | none => rfl
    | some deadline => exact (closed rfl deadline).symm
  | some endpoint =>
    simp only
    split
    · cases Checked.add now agent.config.endpointRetention with
      | error fault => rfl
      | ok deadline => exact enqueue_cache _ _ _
    · exact enqueue_cache _ _ _

theorem act_cache (agent : Agent) (resolve : Resolver) (accepted : Accepted) (now : Micros) (reading : Reading) :
    (agent.act resolve accepted now reading).agent.cache =
      match reading with
      | .leaving address content => agent.cache.visit resolve address (agent.deadline? content now)
      | _ => agent.cache := by
  cases reading with
  | unreadable reason => rfl
  | arrived content => rfl
  | leaving address content => exact agent.exit_cache _ _ _ _ _
  | passing packet => exact agent.enqueue_cache _ _

section
variable {agent : Agent} {sender : Endpoint} {relayId : RelayId} {datagram : Bytes} {address : Address} {content : Bytes}

theorem stranger?_of_exit? (exits : agent.exit? sender relayId datagram = some (address, content)) :
    agent.stranger? sender relayId datagram = none := by
  unfold exit? at exits
  split at exits
  next => cases exits
  next =>
    split at exits
    next found =>
      unfold stranger?
      split
      · rfl
      · rw [found]
    next => cases exits

/-- The gate looks up nobody when content leaves. -/
theorem AtGate.same_cache {now : Micros} {guarded : Agent} (atGate : agent.AtGate sender relayId datagram now guarded)
    (exits : agent.exit? sender relayId datagram = some (address, content)) : guarded.cache = agent.cache := by
  rw [atGate.cache, cacheAtGate, stranger?_of_exit? exits]

theorem AtGate.overflows_iff {now time : Micros} {guarded : Agent}
    (atGate : agent.AtGate sender relayId datagram now guarded) :
    guarded.Overflows content time ↔ agent.Overflows content time := by
  rw [Overflows, Overflows, atGate.config]

private theorem exit?_none (salt : UInt32) (now : Micros)
    (stays : ∀ accepted, agent.accepted? sender relayId datagram now = some accepted →
      ∀ address content, accepted.reading salt datagram ≠ .leaving address content) :
    agent.exit? sender relayId datagram = none := by
  rw [Option.eq_none_iff_forall_not_mem]
  rintro ⟨address, content⟩ exits
  obtain ⟨accepted, accepts, leaves⟩ := (exit?_eq_some salt now).mp exits
  exact stays accepted accepts address content leaves

theorem process_cache (agent : Agent) (resolve : Resolver) (salt : UInt32) (sender : Endpoint) (relayId : RelayId)
    (datagram : Bytes) (now : Micros) :
    (agent.process resolve salt sender relayId datagram now).agent.cache =
      match agent.exit? sender relayId datagram with
      | some (address, content) => agent.cache.visit resolve address (agent.deadline? content now)
      | none => agent.cacheAtGate sender relayId datagram now := by
  cases accepts : agent.accepted? sender relayId datagram now with
  | none =>
    rw [exit?_none salt now fun _ also => nomatch accepts.symm.trans also]
    exact (process_turns_away accepts resolve salt).1.cache
  | some accepted =>
    obtain ⟨guarded, atGate, done, _⟩ := process_accepts accepts resolve salt
    rw [done, act_cache]
    cases reads : accepted.reading salt datagram with
    | leaving address content =>
      have exits := (exit?_eq_some salt now).mpr ⟨accepted, accepts, reads⟩
      simp only [exits, atGate.same_cache exits, deadline?, atGate.config]
    | unreadable | arrived | passing =>
      have stays : agent.exit? sender relayId datagram = none := by
        refine exit?_none salt now fun other also address content leaves => ?_
        rw [accepts] at also
        cases also
        rw [reads] at leaves
        cases leaves
      rw [stays]
      exact atGate.cache

end

/-- Whose endpoint an operation touches if it is known: the destination of content, or a stranger that sends. -/
def touched? (agent : Agent) : Operation → Option Address
  | .process _ _ sender relayId datagram _ =>
    match agent.exit? sender relayId datagram with
    | some (address, _) => some address
    | none => agent.stranger? sender relayId datagram
  | _ => none

/-- Content leaves for an address that has an endpoint. -/
def Exits (agent : Agent) (operation : Operation) (address : Address) (content : Bytes) (time : Micros) : Prop :=
  ∃ resolve salt sender relayId datagram, operation = .process resolve salt sender relayId datagram time ∧
    agent.exit? sender relayId datagram = some (address, content) ∧
    (agent.cache.lookup resolve address).endpoint.isSome = true

/-- A connection packet leaves for an address that has an endpoint. -/
def Connects (agent : Agent) (operation : Operation) (address : Address) (time : Micros) : Prop :=
  ∃ content, agent.Exits operation address content time ∧ ContentKind.ofContent? content = some .connect

/-- What an operation may do to the endpoints. -/
inductive Touch (agent : Agent) (operation : Operation) : EndpointCache → Prop
  | nothing : Touch agent operation agent.cache
  | seen {address : Address} {entry : CachedEndpoint} (touched : agent.touched? operation = some address)
    (known : agent.cache.get? address = some entry) : Touch agent operation (agent.cache.put address entry)
  | visited {address : Address} {content : Bytes} {time : Micros} {entry : CachedEndpoint}
    (exits : agent.Exits operation address content time)
    (lasts : entry.openUntil = ((agent.deadline? content time).map (max (agent.cache.openUntil address))).getD
      (agent.cache.openUntil address)) : Touch agent operation (agent.cache.put address entry)

section
variable {agent : Agent} {operation : Operation} {address : Address} {content : Bytes} {time deadline : Micros}

theorem deadline?_eq_some : agent.deadline? content time = some deadline ↔
    ContentKind.ofContent? content = some .connect ∧ Checked.add time agent.config.endpointRetention = .ok deadline := by
  unfold deadline?
  split
  next connection =>
    rw [and_iff_right connection]
    cases Checked.add time agent.config.endpointRetention with
    | error fault => simp only [Except.toOption, reduceCtorEq]
    | ok sum => simp only [Except.toOption, Option.some.injEq, Except.ok.injEq]
  next other => simp only [other, reduceCtorEq, false_and]

theorem Exits.touched (exits : agent.Exits operation address content time) : agent.touched? operation = some address := by
  obtain ⟨resolve, salt, sender, relayId, datagram, rfl, leaves, _⟩ := exits
  rw [touched?, leaves]

theorem Exits.unique {other : Address} {also : Bytes} {moment : Micros}
    (exits : agent.Exits operation address content time) (again : agent.Exits operation other also moment) :
    address = other ∧ content = also ∧ time = moment := by
  obtain ⟨_, _, _, _, _, rfl, leaves, _⟩ := exits
  obtain ⟨_, _, _, _, _, same, leaves', _⟩ := again
  cases same
  rw [leaves] at leaves'
  cases leaves'
  exact ⟨rfl, rfl, rfl⟩

/-- After content has left for it, an address is the one touched last. -/
theorem Exits.cache (exits : agent.Exits operation address content time) (room : 0 < agent.cache.capacity) :
    ∃ endpoint, (agent.after operation).cache = agent.cache.put address
      ⟨endpoint, ((agent.deadline? content time).map (max (agent.cache.openUntil address))).getD
        (agent.cache.openUntil address)⟩ := by
  obtain ⟨resolve, salt, sender, relayId, datagram, rfl, leaves, known⟩ := exits
  obtain ⟨endpoint, target⟩ := Option.isSome_iff_exists.mp known
  refine ⟨endpoint, ?_⟩
  rw [after, process_cache, leaves]
  simp only [EndpointCache.visit_eq _ _ room, target]

theorem after_touch (agent : Agent) (room : 0 < agent.cache.capacity) (operation : Operation) :
    agent.Touch operation (agent.after operation).cache := by
  cases moves : operation.movesPackets with
  | false =>
    obtain ⟨table, same⟩ := agent.after_onTable moves
    rw [same]
    exact .nothing
  | true =>
    cases operation with
    | process resolve salt sender relayId datagram time =>
      cases leaves : agent.exit? sender relayId datagram with
      | some target =>
        obtain ⟨address, content⟩ := target
        cases found : (agent.cache.lookup resolve address).endpoint with
        | none =>
          rw [after, process_cache, leaves]
          simp only [EndpointCache.visit_eq _ _ room, found]
          exact .nothing
        | some endpoint =>
          have exits : agent.Exits (.process resolve salt sender relayId datagram time) address content time :=
            ⟨resolve, salt, sender, relayId, datagram, rfl, leaves, by rw [found]; rfl⟩
          obtain ⟨endpoint, cache⟩ := exits.cache room
          rw [cache]
          exact .visited exits rfl
      | none =>
        rw [after, process_cache, leaves]
        simp only [cacheAtGate]
        cases strange : agent.stranger? sender relayId datagram with
        | none => exact .nothing
        | some address =>
          simp only [EndpointCache.isUnrestricted_eq]
          cases known : agent.cache.get? address with
          | none => exact .nothing
          | some entry => exact .seen (by rw [touched?, leaves]; exact strange) known
    | next =>
      rw [after, next?]
      split <;> exact .nothing
    | drain => exact .nothing
    | _ => cases moves

theorem Touch.tidy {cache : EndpointCache} (touch : agent.Touch operation cache) (tidy : agent.cache.Tidy) :
    cache.Tidy ∧ cache.capacity = agent.cache.capacity := by
  cases touch with
  | nothing => exact ⟨tidy, rfl⟩
  | seen => exact ⟨tidy.put _ _, rfl⟩
  | visited => exact ⟨tidy.put _ _, rfl⟩

theorem run_tidy (tidy : agent.cache.Tidy) (operations : List Operation) :
    (agent.run operations).cache.Tidy ∧ (agent.run operations).cache.capacity = agent.cache.capacity := by
  induction operations generalizing agent with
  | nil => exact ⟨tidy, rfl⟩
  | cons operation operations ih =>
    obtain ⟨still, same⟩ := (agent.after_touch tidy.room operation).tidy tidy
    obtain ⟨kept, room⟩ := ih still
    exact ⟨kept, room.trans same⟩

theorem Touch.fits {cache : EndpointCache} (touch : agent.Touch operation cache)
    (fits : agent.cache.entries.length ≤ agent.cache.capacity) : cache.entries.length ≤ cache.capacity := by
  cases touch with
  | nothing => exact fits
  | seen => exact EndpointCache.fits_put _ _ _
  | visited => exact EndpointCache.fits_put _ _ _

theorem run_fits (tidy : agent.cache.Tidy) (fits : agent.cache.entries.length ≤ agent.cache.capacity)
    (operations : List Operation) :
    (agent.run operations).cache.entries.length ≤ (agent.run operations).cache.capacity := by
  induction operations generalizing agent with
  | nil => exact fits
  | cons operation operations ih =>
    have touch := agent.after_touch tidy.room operation
    exact ih (touch.tidy tidy).1 (touch.fits fits)

theorem run_fresh_tidy (config : AgentConfig) (operations : List Operation) :
    ((fresh config).run operations).cache.Tidy ∧
      ((fresh config).run operations).cache.capacity = max config.cacheCapacity.toNat 1 :=
  run_tidy (EndpointCache.tidy_empty _) operations

theorem run_fresh_sound (config : AgentConfig) (operations : List Operation) :
    ((fresh config).run operations).table.Sound :=
  run_sound ExchangeTable.sound_empty operations

end

section Numbered
variable {agent : Agent} {exchange : Exchange} {number : UInt8} {address : Address}

/-- The client of a numbered hop sends content out; every address leads where it says. -/
def numberedSend (number : UInt8) (address : Address) (content : Bytes) (now : Micros) : Operation :=
  let hop := Circuit.numberedHop number
  .process (fun address => some ⟨address.relayId, address.socket⟩) 0 hop.link.endpoint 1
    (Tag.wrapped hop.key ⟨0, 1⟩ (Onion.pack [hop.link.embryo] 0 address content)) now

theorem exits_numberedSend (found : agent.table.find? 1 = some (exchange, .outward))
    (key : exchange.innerKey = (Circuit.numberedHop number).key) (link : exchange.link = (Circuit.numberedHop number).link)
    (outside : address.isRelay = false) (content : Bytes) (now : Micros) :
    agent.Exits (numberedSend number address content now) address content now := by
  refine ⟨_, _, _, _, _, rfl, ?_, ?_⟩
  · have reads := exchange.readOutward_pack ⟨0, 1⟩ 0 outside content
    rw [key, link] at reads
    rw [exit?, if_neg (by decide), found]
    simp only [link, if_true, reads]
  · exact EndpointCache.isSome_lookup _ rfl

theorem after_numberedSend_table (found : agent.table.find? 1 = some (exchange, .outward))
    (link : exchange.link = (Circuit.numberedHop number).link) (content : Bytes) (now : Micros) :
    (agent.after (numberedSend number address content now)).table = (agent.charge exchange now).agent.table := by
  have long := Tag.size_le_wrapped (Circuit.numberedHop number).key ⟨0, 1⟩
    (Onion.pack [(Circuit.numberedHop number).link.embryo] 0 address content)
  have charged := agent.process_table_outward found (by decide) long
    (fun address => some ⟨address.relayId, address.socket⟩) 0 now
  rw [link] at charged
  exact charged

theorem run_pair (agent : Agent) (one two : Operation) : agent.run [one, two] = (agent.after one).after two := rfl

/-- The link of hop 1 gets an exchange with the ids 1 and 2 that lets no stranger in. -/
def closedAdd : Operation :=
  .add (Circuit.numberedHop 1).link ⟨(Circuit.numberedHop 1).key, false, false⟩ 1000000 [1, 2]

def closedExchange (limits : AgentLimits) : Exchange :=
  .start 1 2 (Circuit.numberedHop 1).link ⟨(Circuit.numberedHop 1).key, false, false⟩ limits 1000000

/-- A numbered hop that does not speak for a relay. -/
def stranger (number : UInt8) : Endpoint := ⟨0, Circuit.numberedSocket number⟩

/-- The client of hop 1 sends content to a stranger. -/
def closedSend (number : UInt8) (content : Bytes) (now : Micros) : Operation :=
  numberedSend 1 (Address.ofEndpoint (stranger number)) content now

section
variable {config : AgentConfig} (roomy : 0 < config.maxExchanges.toNat)
include roomy

theorem after_closedAdd : ((fresh config).after closedAdd).table = ⟨[closedExchange config.toAgentLimits]⟩ := by
  have free : ¬ (fresh config).config.maxExchanges.toNat ≤ (fresh config).exchangeCount := Nat.not_le.mpr roomy
  simp only [after, closedAdd, addExchange?]
  rw [if_neg free]
  rfl

theorem find?_closedAdd :
    ((fresh config).after closedAdd).table.find? 1 = some (closedExchange config.toAgentLimits, .outward) := by
  rw [after_closedAdd roomy]
  rfl

theorem mem_closedAdd : closedExchange config.toAgentLimits ∈ ((fresh config).after closedAdd).table.exchanges := by
  rw [after_closedAdd roomy]
  exact List.mem_singleton.mpr rfl

theorem exits_closedSend (number : UInt8) (content : Bytes) (now : Micros)
    (outside : (Address.ofEndpoint (stranger number)).isRelay = false) : ((fresh config).after closedAdd).Exits
      (closedSend number content now) (Address.ofEndpoint (stranger number)) content now :=
  exits_numberedSend (find?_closedAdd roomy) rfl rfl outside content now

/-- The first packet costs the exchange a point. -/
theorem after_closedSend (rich : 0 < config.defaultPoints) (number : UInt8) (content : Bytes) :
    ((fresh config).run [closedAdd, closedSend number content 1000000]).table =
      ⟨[{ closedExchange config.toAgentLimits with points := config.defaultPoints - 1 }]⟩ := by
  have pays : (closedExchange config.toAgentLimits).spend? 1000000 =
      some { closedExchange config.toAgentLimits with points := config.defaultPoints - 1 } :=
    if_neg (Int64.not_le.mpr rich)
  rw [run_pair, closedSend, after_numberedSend_table (find?_closedAdd roomy) rfl, charge, pays, after_closedAdd roomy]
  rfl

end
end Numbered
end Agent
end OnionCircuit
