import OnionCircuit.Proofs.OutboundQueue
import OnionCircuit.Proofs.PackedLayers

/-! A relay reads exactly what those who hold its keys can have made. What comes from its client has to be a packet under
both layers of the exchange, what comes from the next hop a packet under the tag layer to it; everything else is dropped
unread. -/

namespace OnionCircuit

namespace Exchange

/-- A datagram is a packet under the two layers between an exchange and its client, behind the ids that it carries. -/
def Seals (exchange : Exchange) (packet datagram : Bytes) : Prop :=
  ∃ covered, Onion.add exchange.link.embryo packet = .ok covered ∧
    Tag.wrap exchange.innerKey (RelayIds.ofBytes datagram) covered = .ok datagram

variable {exchange : Exchange} {packet datagram : Bytes}

theorem open?_eq_some_iff : exchange.open? datagram = some packet ↔ exchange.Seals packet datagram := by
  unfold open? Seals
  simp only [← Onion.remove_eq_ok_iff, ← Tag.unwrap_eq_ok_iff]
  cases Tag.unwrap exchange.innerKey datagram with
  | error short => simp only [reduceCtorEq, and_false, exists_false]
  | ok covered =>
    simp only [Except.ok.injEq, exists_eq_right']
    cases Onion.remove exchange.link.embryo covered with
    | error short => simp only [Except.toOption, reduceCtorEq]
    | ok inner => simp only [Except.toOption, Option.some.injEq, Except.ok.injEq]

theorem seals_pack (exchange : Exchange) (ids : RelayIds) (salt : UInt32) (address : Address) (content : Bytes) :
    exchange.Seals (Onion.pack [] salt address content)
      (Tag.wrapped exchange.innerKey ids (Onion.pack [exchange.link.embryo] salt address content)) := by
  refine ⟨_, Onion.add_eq (Onion.size_le_pack salt address content []), ?_⟩
  rw [Tag.ofBytes_wrapped]
  exact Tag.wrap_eq_wrapped (Onion.salted_pack salt address content [exchange.link.embryo])

theorem Seals.enough (seals : exchange.Seals packet datagram) : Header.size ≤ packet.length := by
  obtain ⟨covered, adds, _⟩ := seals
  exact (Onion.add_eq_ok_iff.mp adds).1

theorem Seals.unique (seals : exchange.Seals packet datagram) {other : Bytes} (also : exchange.Seals other datagram) :
    other = packet :=
  Option.some.inj ((open?_eq_some_iff.mpr also).symm.trans (open?_eq_some_iff.mpr seals))

end Exchange

namespace Agent
variable {agent : Agent} {resolve : Resolver} {salt : UInt32} {exchange : Exchange} {next : Binding} {relayId : RelayId}
  {packet datagram : Bytes} {now : Micros} {done : Processed}

/-- A datagram is queued, unless it is too large or there is no room for it. -/
inductive Posts (agent : Agent) (parcel : Outbound) (done : Processed) : Prop
  | sent (small : parcel.datagram.length ≤ 1432) (room : agent.HasRoom)
    (value : done.value = .ok (.forwarded parcel.socket)) (queue : done.agent.queue = agent.queue ++ [parcel])
  | tooLarge (large : 1432 < parcel.datagram.length) (value : done.value = .ok (.dropped .tooLarge))
    (queue : done.agent.queue = agent.queue)
  | queueFull (small : parcel.datagram.length ≤ 1432) (full : ¬ agent.HasRoom)
    (value : done.value = .ok (.dropped .queueFull)) (queue : done.agent.queue = agent.queue)

/-- What a relay does with a packet that its client has sealed. -/
inductive ActsOn (agent : Agent) (resolve : Resolver) (exchange : Exchange) (packet : Bytes) (done : Processed) : Prop
  | delivers {header : Header} (bare : Header.Bare packet) (parses : Header.parse? packet = some header)
    (here : header.address = Address.relay)
    (value : done.value = .ok (.delivered exchange.link.endpoint (packet.drop Header.size)))
    (queue : done.agent.queue = agent.queue)
  | unresolvable {header : Header} (bare : Header.Bare packet) (parses : Header.parse? packet = some header)
    (away : header.address ≠ Address.relay) (unknown : (agent.cache.lookup resolve header.address).endpoint = none)
    (value : done.value = .ok (.dropped .unresolvable)) (queue : done.agent.queue = agent.queue)
  | exits {header : Header} {target : Endpoint} (bare : Header.Bare packet) (parses : Header.parse? packet = some header)
    (away : header.address ≠ Address.relay)
    (known : (agent.cache.lookup resolve header.address).endpoint = some target)
    (posts : agent.Posts
      ⟨target.socket, (RelayIds.mk exchange.outerId target.relayId).bytes ++ packet.drop Header.size⟩ done)
  | unbound (covered : ¬ Header.Bare packet) (free : exchange.outer = none)
    (value : done.value = .ok (.dropped .notEstablished)) (queue : done.agent.queue = agent.queue)
  | onward {next : Binding} {out : Bytes} (covered : ¬ Header.Bare packet) (bound : exchange.outer = some next)
    (wraps : Tag.wrap next.key ⟨exchange.outerId, next.endpoint.relayId⟩ packet = .ok out)
    (posts : agent.Posts ⟨next.endpoint.socket, out⟩ done)

/-- A connection packet is to leave for a known endpoint, at a time from which nobody can tell until when it may answer. -/
def Strands (agent : Agent) (resolve : Resolver) (packet : Bytes) (now : Micros) : Prop :=
  Header.Bare packet ∧ ∃ header, Header.parse? packet = some header ∧ header.address ≠ Address.relay ∧
    (agent.cache.lookup resolve header.address).endpoint.isSome = true ∧ agent.Overflows (packet.drop Header.size) now

theorem Offers.posts {parcel : Outbound} (offers : agent.Offers done parcel) : agent.Posts parcel done := by
  by_cases large : Datagram.largest < parcel.datagram.length
  · obtain ⟨value, queue⟩ := offers.tooLarge large
    exact .tooLarge large value queue
  · have small := Nat.not_lt.mp large
    by_cases room : agent.HasRoom
    · obtain ⟨value, queue⟩ := offers.sends small room
      exact .sent small room value queue
    · obtain ⟨value, queue⟩ := offers.enqueued
      simp only [enqueue, large, Nat.not_lt.mp room, if_true, if_false] at value queue
      exact .queueFull small room value queue

theorem Posts.atQueue {parcel : Outbound} (posts : agent.Posts parcel done) :
    ∃ outcome, done.value = .ok outcome ∧ outcome.atQueue = true := by
  cases posts with
  | sent small room value => exact ⟨_, value, rfl⟩
  | tooLarge large value => exact ⟨_, value, rfl⟩
  | queueFull small full value => exact ⟨_, value, rfl⟩

theorem Posts.value_ne {parcel : Outbound} (posts : agent.Posts parcel done) {outcome : RelayOutcome}
    (elsewhere : outcome.atQueue = false) : done.value ≠ .ok outcome := by
  intro same
  obtain ⟨_, value, queued⟩ := posts.atQueue
  cases same.symm.trans value
  cases elsewhere.symm.trans queued

/-- A relay that acts on a packet has read it, and has not stopped over it. -/
theorem ActsOn.outcome (acts : agent.ActsOn resolve exchange packet done) :
    ∃ outcome, done.value = .ok outcome ∧ outcome ≠ .dropped .decryptionFailed := by
  have queued {parcel : Outbound} (posts : agent.Posts parcel done) :
      ∃ outcome, done.value = .ok outcome ∧ outcome ≠ .dropped .decryptionFailed := by
    obtain ⟨outcome, value, _⟩ := posts.atQueue
    refine ⟨outcome, value, ?_⟩
    intro same
    rw [same] at value
    exact posts.value_ne rfl value
  cases acts with
  | delivers bare parses here value => exact ⟨_, value, nofun⟩
  | unresolvable bare parses away unknown value => exact ⟨_, value, nofun⟩
  | exits bare parses away known posts => exact queued posts
  | unbound covered free value => exact ⟨_, value, nofun⟩
  | onward covered bound wraps posts => exact queued posts

section Accepted
variable (resolve salt) {sender : Endpoint} {accepted : Accepted} (accepts : agent.accepted? sender relayId datagram now = some accepted)
include accepts

theorem process_unreadable {reason : DropReason} (reads : accepted.reading salt datagram = .unreadable reason) :
    let done := agent.process resolve salt sender relayId datagram now
    done.value = .ok (.dropped reason) ∧ done.agent.queue = agent.queue := by
  obtain ⟨guarded, atGate, after, value⟩ := process_accepts accepts resolve salt
  rw [reads] at after value
  exact ⟨value, (congrArg Agent.queue after).trans atGate.queue⟩

theorem process_arrived {content : Bytes} (reads : accepted.reading salt datagram = .arrived content) :
    let done := agent.process resolve salt sender relayId datagram now
    done.value = .ok (.delivered accepted.exchange.link.endpoint content) ∧ done.agent.queue = agent.queue := by
  obtain ⟨guarded, atGate, after, value⟩ := process_accepts accepts resolve salt
  rw [reads] at after value
  exact ⟨value, (congrArg Agent.queue after).trans atGate.queue⟩

theorem process_posts {parcel : Outbound}
    (becomes : agent.becomes? resolve accepted now (accepted.reading salt datagram) = some parcel) :
    agent.Posts parcel (agent.process resolve salt sender relayId datagram now) := by
  have offers := agent.process_parcel resolve salt sender relayId datagram now
  simp only [parcel?, accepts, Option.bind_some, becomes] at offers
  exact offers.posts

end Accepted

section Outward
variable (found : agent.table.find? relayId = some (exchange, .outward)) (named : relayId ≠ 0)
  (long : RelayIds.size ≤ datagram.length)
include found named long

theorem accepted?_client (now : Micros) :
    agent.accepted? exchange.link.endpoint relayId datagram now = some ⟨exchange, .outward⟩ := by
  apply accepted?_eq_some.mpr
  refine ⟨⟨named, long⟩, ?_⟩
  simp only [screen, found, if_true]

/-- Content leaves without a look at strangers, so the endpoints are as they were before the packet. -/
theorem process_leaving (resolve : Resolver) (salt : UInt32) (now : Micros) {address : Address} {content : Bytes}
    (reads : exchange.readOutward datagram = .leaving address content) :
    let done := agent.process resolve salt exchange.link.endpoint relayId datagram now
    match (agent.cache.lookup resolve address).endpoint with
    | none => done.value = .ok (.dropped .unresolvable) ∧ done.agent.queue = agent.queue
    | some target =>
      (agent.Overflows content now → done.value = .error .addition) ∧
      (¬ agent.Overflows content now →
        agent.Posts ⟨target.socket, (RelayIds.mk exchange.outerId target.relayId).bytes ++ content⟩ done) := by
  have accepts := accepted?_client found named long now
  have leaves := (exit?_eq_some salt now).mpr ⟨_, accepts, reads⟩
  obtain ⟨guarded, atGate, after, value⟩ := process_accepts accepts resolve salt
  have same := atGate.same_cache leaves
  simp only [Accepted.reading, reads, act] at after value
  cases known : (agent.cache.lookup resolve address).endpoint with
  | none =>
    rw [← same] at known
    obtain ⟨dropped, keeps⟩ := exit_unresolvable known exchange.outerId content now
    exact ⟨value.trans dropped, (congrArg Agent.queue after).trans (keeps.trans atGate.queue)⟩
  | some target =>
    refine ⟨fun overflows => ?_, fun fits => ?_⟩
    · rw [← same] at known
      exact value.trans (exit_overflows known (atGate.overflows_iff.mpr overflows) exchange.outerId).1
    · apply process_posts resolve salt accepts
      simp only [Accepted.reading, reads, becomes?, fits, if_false, known, Option.map_some]

theorem process_unsealed (resolve : Resolver) (salt : UInt32) (now : Micros)
    (nothing : ∀ packet, ¬ exchange.Seals packet datagram) :
    (agent.process resolve salt exchange.link.endpoint relayId datagram now).value =
      .ok (.dropped .decryptionFailed) := by
  have closed : exchange.open? datagram = none := by
    rw [Option.eq_none_iff_forall_ne_some]
    intro packet opens
    exact nothing packet (Exchange.open?_eq_some_iff.mp opens)
  refine (process_unreadable resolve salt (accepted?_client found named long now) ?_).1
  simp only [Accepted.reading, Exchange.readOutward, closed]

/-- The relay acts on the packet that its client has sealed, or is stopped by the one sum that it has to compute. -/
theorem process_sealed (resolve : Resolver) (salt : UInt32) (now : Micros) (seals : exchange.Seals packet datagram) :
    let done := agent.process resolve salt exchange.link.endpoint relayId datagram now
    (agent.Strands resolve packet now → done.value = .error .addition) ∧
    (¬ agent.Strands resolve packet now → agent.ActsOn resolve exchange packet done) := by
  intro done
  have accepts := accepted?_client found named long now
  have opens := Exchange.open?_eq_some_iff.mpr seals
  obtain ⟨header, parses⟩ := Option.isSome_iff_exists.mp (Header.parse?_isSome.mpr seals.enough)
  by_cases bare : Header.Bare packet
  · have terminal := Header.isTerminal_iff.mpr ⟨seals.enough, bare⟩
    by_cases here : header.address = Address.relay
    · have reads : exchange.readOutward datagram = .arrived (packet.drop Header.size) := by
        simp only [Exchange.readOutward, opens, terminal, if_true, parses, Address.isRelay, here, decide_true]
      obtain ⟨value, queue⟩ := process_arrived resolve salt accepts reads
      refine ⟨?_, fun _ => .delivers bare parses here value queue⟩
      intro strands
      obtain ⟨_, other, also, away, _⟩ := strands
      cases parses.symm.trans also
      exact absurd here away
    · have reads : exchange.readOutward datagram = .leaving header.address (packet.drop Header.size) := by
        simp only [Exchange.readOutward, opens, terminal, if_true, parses, Address.isRelay, here, decide_false,
          Bool.false_eq_true, if_false]
      have leaves := process_leaving found named long resolve salt now reads
      cases known : (agent.cache.lookup resolve header.address).endpoint with
      | none =>
        simp only [known] at leaves
        refine ⟨?_, fun _ => .unresolvable bare parses here known leaves.1 leaves.2⟩
        intro strands
        obtain ⟨_, other, also, _, resolves, _⟩ := strands
        cases parses.symm.trans also
        rw [known] at resolves
        cases resolves
      | some target =>
        simp only [known] at leaves
        refine ⟨?_, fun runs => .exits bare parses here known (leaves.2 fun overflows => ?_)⟩
        · intro strands
          obtain ⟨_, _, _, _, _, overflows⟩ := strands
          exact leaves.1 overflows
        · exact runs ⟨bare, header, parses, here, by rw [known]; rfl, overflows⟩
  · have covered : Header.isTerminal packet = false :=
      Bool.eq_false_iff.mpr fun terminal => bare (Header.isTerminal_iff.mp terminal).2
    refine ⟨fun strands => absurd strands.1 bare, fun _ => ?_⟩
    cases bound : exchange.outer with
    | none =>
      have reads : exchange.readOutward datagram = .unreadable .notEstablished := by
        simp only [Exchange.readOutward, opens, covered, Bool.false_eq_true, if_false, bound]
      obtain ⟨value, queue⟩ := process_unreadable resolve salt accepts reads
      exact .unbound bare bound value queue
    | some next =>
      have salted : Header.saltSize ≤ packet.length := Nat.le_trans Header.saltSize_le_size seals.enough
      have wraps : Tag.wrap next.key ⟨exchange.outerId, next.endpoint.relayId⟩ packet = .ok _ := Tag.wrap_eq_wrapped salted
      refine .onward bare bound wraps (process_posts resolve salt accepts ?_)
      simp only [Accepted.reading, Exchange.readOutward, opens, covered, Bool.false_eq_true, if_false, bound,
        Reading.toward, wraps, becomes?]

end Outward

section Inward
variable (found : agent.table.find? relayId = some (exchange, .inward)) (bound : exchange.outer = some next)
  (named : relayId ≠ 0) (long : RelayIds.size ≤ datagram.length)
include found bound named long

theorem accepted?_next (now : Micros) :
    agent.accepted? next.endpoint relayId datagram now = some ⟨exchange, .relayed next⟩ := by
  apply accepted?_eq_some.mpr
  refine ⟨⟨named, long⟩, ?_⟩
  simp only [screen, found, bound, ne_eq, not_true_eq_false, if_false, if_true]

theorem process_unwrapped (resolve : Resolver) (salt : UInt32) (now : Micros)
    (nothing : ∀ packet, Tag.wrap next.key (RelayIds.ofBytes datagram) packet ≠ .ok datagram) :
    (agent.process resolve salt next.endpoint relayId datagram now).value = .ok (.dropped .decryptionFailed) := by
  refine (process_unreadable resolve salt (accepted?_next found bound named long now) ?_).1
  simp only [Accepted.reading, Exchange.readRelayed]
  cases opens : Tag.unwrap next.key datagram with
  | error short => rfl
  | ok packet => exact absurd (Tag.wrap_of_unwrap opens) (nothing packet)

/-- A packet from the next hop gets the layers of the exchange, if it has room for a header. -/
theorem process_wrapped (resolve : Resolver) (salt : UInt32) (now : Micros)
    (wraps : Tag.wrap next.key (RelayIds.ofBytes datagram) packet = .ok datagram) :
    let done := agent.process resolve salt next.endpoint relayId datagram now
    (packet.length < 32 → done.value = .ok (.dropped .malformed)) ∧
    (32 ≤ packet.length → ∃ covered out, Onion.add exchange.link.embryo packet = .ok covered ∧
      Tag.wrap exchange.innerKey ⟨exchange.innerId, exchange.link.endpoint.relayId⟩ covered = .ok out ∧
      agent.Posts ⟨exchange.link.endpoint.socket, out⟩ done) := by
  have accepts := accepted?_next found bound named long now
  have opens := Tag.unwrap_eq_ok_iff.mpr wraps
  refine ⟨fun short => (process_unreadable resolve salt accepts ?_).1, fun enough => ?_⟩
  · have refused : Onion.add exchange.link.embryo packet = .error .tooShort := if_pos short
    simp only [Accepted.reading, Exchange.readRelayed, opens, refused]
  · have adds : Onion.add exchange.link.embryo packet = .ok _ := Onion.add_eq enough
    have salted : Header.saltSize ≤ (Onion.cover exchange.link.embryo packet).length := by
      rw [Onion.length_cover]
      exact Nat.le_trans (Nat.le_trans Header.saltSize_le_size enough) (Nat.le_add_right _ _)
    have wrapped : Tag.wrap exchange.innerKey ⟨exchange.innerId, exchange.link.endpoint.relayId⟩
        (Onion.cover exchange.link.embryo packet) = .ok _ := Tag.wrap_eq_wrapped salted
    refine ⟨_, _, adds, wrapped, process_posts resolve salt accepts ?_⟩
    simp only [Accepted.reading, Exchange.readRelayed, opens, adds, Reading.toward, wrapped, becomes?]

end Inward

/-- A relay reads what holders of its keys can have made, each datagram in one way only, and acts on it, unless a connection
packet strands it. From the next hop it takes what has a tag layer for it, and covers it for the client if there is room
for a header. -/
theorem reads_sealed_iff (config : AgentConfig) (operations : List Operation) {exchange : Exchange}
    (live : exchange ∈ ((fresh config).run operations).table.exchanges) {datagram : Bytes} (long : 8 ≤ datagram.length)
    (resolve : Resolver) (salt : UInt32) (now : Micros) :
    let agent := (fresh config).run operations
    let outward := agent.process resolve salt exchange.link.endpoint exchange.innerId datagram now
    (outward.value = .ok (.dropped .decryptionFailed) ↔ ∀ packet, ¬ exchange.Seals packet datagram) ∧
    (∀ packet, exchange.Seals packet datagram →
      32 ≤ packet.length ∧ (∀ other, exchange.Seals other datagram → other = packet) ∧
      (agent.ActsOn resolve exchange packet outward ↔ ¬ agent.Strands resolve packet now)) ∧
    ∀ next, exchange.outer = some next →
      let inward := agent.process resolve salt next.endpoint exchange.outerId datagram now
      (inward.value = .ok (.dropped .decryptionFailed) ↔
        ∀ packet, Tag.wrap next.key (RelayIds.ofBytes datagram) packet ≠ .ok datagram) ∧
      ∀ packet, Tag.wrap next.key (RelayIds.ofBytes datagram) packet = .ok datagram →
        (inward.value = .ok (.dropped .malformed) ↔ packet.length < 32) ∧
        (32 ≤ packet.length → ∃ covered out, Onion.add exchange.link.embryo packet = .ok covered ∧
          Tag.wrap exchange.innerKey ⟨exchange.innerId, exchange.link.endpoint.relayId⟩ covered = .ok out ∧
          agent.Posts ⟨exchange.link.endpoint.socket, out⟩ inward) := by
  intro agent outward
  have sound : agent.table.Sound := run_fresh_sound config operations
  have owner (relayId : RelayId) (own : relayId = exchange.innerId ∨ relayId = exchange.outerId) : relayId ≠ 0 := by
    intro zero
    apply sound.named
    rw [← zero]
    exact ExchangeTable.mem_ids.mpr ⟨exchange, live, own⟩
  have client := sound.find?_inner live
  have named := owner _ (Or.inl rfl)
  refine ⟨⟨fun dropped packet seals => ?_, process_unsealed client named long resolve salt now⟩, ?_, ?_⟩
  · obtain ⟨strands, acts⟩ := process_sealed client named long resolve salt now seals
    by_cases stranded : agent.Strands resolve packet now
    · cases dropped.symm.trans (strands stranded)
    · obtain ⟨outcome, value, read⟩ := (acts stranded).outcome
      cases dropped.symm.trans value
      exact read rfl
  · intro packet seals
    obtain ⟨strands, acts⟩ := process_sealed client named long resolve salt now seals
    refine ⟨seals.enough, fun _ => seals.unique, fun acted stranded => ?_, acts⟩
    obtain ⟨outcome, value, _⟩ := acted.outcome
    cases (strands stranded).symm.trans value
  · intro next bound inward
    have hop := sound.find?_outer live
    have named := owner _ (Or.inr rfl)
    refine ⟨⟨fun dropped packet wraps => ?_, process_unwrapped hop bound named long resolve salt now⟩, ?_⟩
    · obtain ⟨short, enough⟩ := process_wrapped hop bound named long resolve salt now wraps
      by_cases few : packet.length < 32
      · cases dropped.symm.trans (short few)
      · obtain ⟨_, _, _, _, posts⟩ := enough (Nat.not_lt.mp few)
        exact posts.value_ne rfl dropped
    · intro packet wraps
      obtain ⟨short, enough⟩ := process_wrapped hop bound named long resolve salt now wraps
      refine ⟨⟨fun dropped => ?_, short⟩, enough⟩
      by_contra many
      obtain ⟨_, _, _, _, posts⟩ := enough (Nat.not_lt.mp many)
      exact posts.value_ne rfl dropped

/-- What a client seals for its first relay is delivered there, and a datagram that is too short for a seal is dropped. -/
theorem reads_sealed_local :
    let agent := (fresh {}).run [closedAdd]
    let exchange := closedExchange ({} : AgentConfig).toAgentLimits
    let datagram := Tag.wrapped exchange.innerKey ⟨0, 1⟩ (Onion.pack [exchange.link.embryo] 0 Address.relay [5])
    exchange ∈ agent.table.exchanges ∧ 8 ≤ datagram.length ∧
      (agent.process (fun _ => none) 0 exchange.link.endpoint exchange.innerId datagram 1000000).value =
        .ok (.delivered exchange.link.endpoint [5]) ∧
      (agent.process (fun _ => none) 0 exchange.link.endpoint exchange.innerId (Bytes.zeros 8) 1000000).value =
        .ok (.dropped .decryptionFailed) := by
  intro agent exchange datagram
  have roomy : 0 < ({} : AgentConfig).maxExchanges.toNat := by decide
  have live : exchange ∈ agent.table.exchanges := mem_closedAdd roomy
  have long : 8 ≤ datagram.length := Tag.size_le_wrapped _ _ _
  have plain := Onion.parse?_pack_nil 0 Address.relay [5]
  have seals : exchange.Seals (Onion.pack [] 0 Address.relay [5]) datagram := exchange.seals_pack ⟨0, 1⟩ 0 Address.relay [5]
  refine ⟨live, long, ?_, ?_⟩
  · obtain ⟨_, _, acts⟩ := (reads_sealed_iff {} [closedAdd] live long (fun _ => none) 0 1000000).2.1 _ seals
    have runs : ¬ agent.Strands (fun _ => none) (Onion.pack [] 0 Address.relay [5]) 1000000 := by
      intro strands
      obtain ⟨_, header, parses, away, _⟩ := strands
      cases plain.symm.trans parses
      exact away rfl
    cases acts.mpr runs with
    | delivers bare parses here value =>
      rw [Onion.drop_pack_nil] at value
      exact value
    | unresolvable bare parses away | exits bare parses away =>
      cases plain.symm.trans parses
      exact absurd rfl away
    | unbound covered | onward covered => exact absurd (Onion.bare_pack_nil 0 Address.relay [5]) covered
  · apply (reads_sealed_iff {} [closedAdd] live (by decide) (fun _ => none) 0 1000000).1.mpr
    intro packet seals
    obtain ⟨covered, _, wraps⟩ := seals
    have opens := Tag.unwrap_eq_ok_iff.mpr wraps
    rw [Tag.unwrap_eq_tooShort_iff.mpr (by decide)] at opens
    cases opens

/-- A retention may be so long that a client can seal what its relay reads and does not act on. -/
theorem not_acts_on_sealed :
    let config : AgentConfig := { endpointRetention := 9223372036854775807 }
    let agent := (fresh config).run [closedAdd]
    let exchange := closedExchange config.toAgentLimits
    let resolve : Resolver := fun address => some ⟨address.relayId, address.socket⟩
    let packet := Onion.pack [] 0 (Address.ofEndpoint (stranger 2)) [1, 0]
    let datagram := Tag.wrapped exchange.innerKey ⟨0, 1⟩
      (Onion.pack [exchange.link.embryo] 0 (Address.ofEndpoint (stranger 2)) [1, 0])
    config.validate = .ok () ∧ exchange ∈ agent.table.exchanges ∧ 8 ≤ datagram.length ∧ exchange.Seals packet datagram ∧
      ¬ agent.ActsOn resolve exchange packet
        (agent.process resolve 0 exchange.link.endpoint exchange.innerId datagram 1000000) := by
  intro config agent exchange resolve packet datagram
  have roomy : 0 < config.maxExchanges.toNat := by decide
  have valid : config.validate = .ok () := by
    rw [AgentLimits.validate, if_neg (by decide), if_neg (by decide), if_neg (by decide), if_neg (by decide),
      if_neg (by decide)]
  have seals := exchange.seals_pack ⟨0, 1⟩ 0 (Address.ofEndpoint (stranger 2)) [1, 0]
  have strands : agent.Strands resolve packet 1000000 := by
    refine ⟨Onion.bare_pack_nil _ _ _, _, Onion.parse?_pack_nil _ _ _, by decide,
      EndpointCache.isSome_lookup _ rfl, ?_⟩
    have content : packet.drop Header.size = [1, 0] := Onion.drop_pack_nil _ _ _
    have outside : ¬ Checked.InRange ((1000000 : Micros).toInt + (9223372036854775807 : Micros).toInt) := by decide
    rw [content, Overflows, run_config]
    exact ⟨rfl, outside⟩
  have long : RelayIds.size ≤ datagram.length := Tag.size_le_wrapped _ _ _
  refine ⟨valid, mem_closedAdd roomy, long, seals, ?_⟩
  intro acts
  obtain ⟨outcome, value, _⟩ := acts.outcome
  have stopped := (process_sealed (find?_closedAdd roomy) (by decide) long resolve 0 1000000 seals).1 strands
  cases stopped.symm.trans value

end Agent
end OnionCircuit
