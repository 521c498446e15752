import OnionCircuit.Proofs.AgentRun
import OnionCircuit.Proofs.HopClosing
import OnionCircuit.Proofs.SenderCheck

/-! One circuit and the relays of its hops. A relay learns of the next hop when an
announcement reaches it, and nothing that the circuit does later makes it forget. -/

namespace OnionCircuit

def Hop.binding (hop : Hop) : Binding := ⟨hop.endpoint, hop.key⟩

structure Announcement where
  /-- The place of the call. -/
  call : Nat
  last : Hop
  new : Hop
  /-- What the relay of the last hop has made of it. -/
  answer : Option Verdict
deriving DecidableEq

def Announcement.block (announcement : Announcement) : SetupBlock :=
  ⟨announcement.last.innerId, announcement.new.endpoint, announcement.new.key⟩

structure Deployment where
  session : Session
  agents : List Agent
  announcements : List Announcement
  /-- The hop that a relay was last told of, for the exchange that has an inner id now. -/
  told : Nat → RelayId → Option Hop

inductive Event
  | client (move : Move)
  /-- An announcement reaches its relay, perhaps after nobody waits for it any more. -/
  | arrive (index : Nat) (now : Micros)
  | operate (relay : Nat) (operation : Operation)

/-- Where links lead, and which connections of a relay are those of the circuit. -/
structure Wiring where
  host : LinkRef → Nat
  own : Nat → UInt64 → Bool

namespace Wiring

def Owns (wiring : Wiring) (link : Link) : Prop := wiring.own (wiring.host link.ref) link.connectionId = true

instance (wiring : Wiring) (link : Link) : Decidable (wiring.Owns link) := inferInstanceAs (Decidable (_ = true))

end Wiring

namespace Deployment

def start (kind : CircuitKind) (config : CircuitConfig) (agents : List Agent) : Deployment :=
  ⟨Session.start kind config, agents, [], fun _ _ => none⟩

def tell (deployment : Deployment) (relay : Nat) (innerId : RelayId) (hop : Option Hop) : Nat → RelayId → Option Hop :=
  fun other id => if other = relay ∧ id = innerId then hop else deployment.told other id

/-- New hops come over the circuit's own links, and an answer to an announcement has to have been given. -/
def Allows (wiring : Wiring) (deployment : Deployment) : Move → Prop
  | .join candidate => wiring.Owns candidate.link
  | .wake place (.setup (some verdict)) =>
    ∃ announcement ∈ deployment.announcements, announcement.call = place ∧ announcement.answer = some verdict
  | _ => True

instance (wiring : Wiring) (deployment : Deployment) (move : Move) : Decidable (deployment.Allows wiring move) := by
  unfold Allows
  split <;> infer_instance

/-- Which call takes a turn in a move. -/
def caller (session : Session) : Move → Nat
  | .wake place _ => place
  | _ => session.calls.length

/-- The announcement that a call is making. -/
def announcing (session : Session) (place : Nat) : List Announcement :=
  match session.calls[place]? with
  | some (some (.announcing last new)) => [⟨place, last, new, none⟩]
  | _ => []

/-- Others at a relay do not set up exchanges over the circuit's connections. -/
def Foreign (wiring : Wiring) (relay : Nat) : Operation → Prop
  | .setup connectionId _ _ => wiring.own relay connectionId = false
  | _ => True

instance (wiring : Wiring) (relay : Nat) (operation : Operation) : Decidable (Foreign wiring relay operation) := by
  unfold Foreign
  split <;> infer_instance

/-- After a turn of a call. -/
def command (deployment : Deployment) (place : Nat) (session : Session) : Deployment :=
  { deployment with
    session := session
    announcements := deployment.announcements ++ announcing session place }

/-- After a relay has made up its mind about an announcement. -/
def answer (deployment : Deployment) (index : Nat) (announcement : Announcement) (relay : Nat)
    (done : Agent × Verdict) : Deployment :=
  { deployment with
    agents := deployment.agents.set relay done.1
    announcements := deployment.announcements.set index { announcement with answer := some done.2 }
    told := if done.2 = .success then deployment.tell relay announcement.last.innerId (some announcement.new)
      else deployment.told }

def operate (deployment : Deployment) (relay : Nat) (agent : Agent) (operation : Operation) : Deployment :=
  { deployment with
    agents := deployment.agents.set relay (agent.after operation)
    told := match agent.added? operation with
      | some innerId => deployment.tell relay innerId none
      | none => deployment.told }

def step? (wiring : Wiring) (deployment : Deployment) : Event → Option Deployment
  | .client move =>
    if deployment.Allows wiring move then
      (deployment.session.step? move).map (deployment.command (caller deployment.session move))
    else none
  | .arrive index now => do
    let announcement ← deployment.announcements[index]?
    let relay := wiring.host announcement.last.link.ref
    let agent ← deployment.agents[relay]?
    if announcement.answer.isSome then none
    else
      return deployment.answer index announcement relay
        (agent.setup announcement.last.link.connectionId announcement.block now)
  | .operate relay operation =>
    if Foreign wiring relay operation then
      deployment.agents[relay]?.map fun agent => deployment.operate relay agent operation
    else none

def run? (wiring : Wiring) (deployment : Deployment) (events : List Event) : Option Deployment :=
  events.foldlM (step? wiring) deployment

inductive Reachable (wiring : Wiring) (kind : CircuitKind) (config : CircuitConfig) : Deployment → Prop
  | start {agents : List Agent} (fresh : ∀ agent ∈ agents, agent.table = ExchangeTable.empty) :
    Reachable wiring kind config (start kind config agents)
  | step {deployment after : Deployment} {event : Event} (reached : Reachable wiring kind config deployment)
    (happened : deployment.step? wiring event = some after) : Reachable wiring kind config after

/-- What became of an announced hop: it is still being announced, or it has joined, or it was closed. -/
def Settled (session : Session) (announcement : Announcement) : Prop :=
  session.calls[announcement.call]? = some (some (.announcing announcement.last announcement.new)) ∨
    announcement.new ∈ session.joined ∨ announcement.new.link.ref ∈ session.closed

/-- What the exchanges of the circuit are bound to is what their relays were told last. -/
structure Faithful (wiring : Wiring) (deployment : Deployment) : Prop where
  sound : ∀ (relay : Nat) agent, deployment.agents[relay]? = some agent → agent.table.Sound
  bound : ∀ (relay : Nat) agent exchange, deployment.agents[relay]? = some agent → exchange ∈ agent.table.exchanges →
    wiring.own relay exchange.link.connectionId = true →
    exchange.outer = (deployment.told relay exchange.innerId).map Hop.binding
  known : ∀ relay innerId new, deployment.told relay innerId = some new →
    ∃ announcement ∈ deployment.announcements, announcement.new = new ∧ announcement.last.innerId = innerId ∧
      wiring.host announcement.last.link.ref = relay ∧ announcement.answer = some .success
  settled : ∀ announcement ∈ deployment.announcements, Settled deployment.session announcement
  within : deployment.session.Within wiring.Owns

section
variable {wiring : Wiring} {deployment : Deployment}

/-- All that can happen to a circuit and its relays. -/
theorem step?_cases {after : Deployment} {event : Event} (happened : deployment.step? wiring event = some after) :
    (∃ move session, deployment.Allows wiring move ∧ deployment.session.step? move = some session ∧
      after = deployment.command (caller deployment.session move) session) ∨
    (∃ index announcement agent now, deployment.announcements[index]? = some announcement ∧ announcement.answer = none ∧
      deployment.agents[wiring.host announcement.last.link.ref]? = some agent ∧
      after = deployment.answer index announcement (wiring.host announcement.last.link.ref)
        (agent.setup announcement.last.link.connectionId announcement.block now)) ∨
    ∃ relay operation agent, Foreign wiring relay operation ∧ deployment.agents[relay]? = some agent ∧
      after = deployment.operate relay agent operation := by
  cases event with
  | client move =>
    simp only [step?] at happened
    split at happened
    next allowed =>
      obtain ⟨session, moved, rfl⟩ := Option.map_eq_some_iff.mp happened
      exact Or.inl ⟨move, session, allowed, moved, rfl⟩
    next => cases happened
  | arrive index now =>
    obtain ⟨announcement, here, happened⟩ := Option.bind_eq_some_iff.mp happened
    obtain ⟨agent, there, happened⟩ := Option.bind_eq_some_iff.mp happened
    split at happened
    next => cases happened
    next pending =>
      cases happened
      exact Or.inr (Or.inl ⟨index, announcement, agent, now, here, by simpa using pending, there, rfl⟩)
  | operate relay operation =>
    simp only [step?] at happened
    split at happened
    next foreign =>
      obtain ⟨agent, there, rfl⟩ := Option.map_eq_some_iff.mp happened
      exact Or.inr (Or.inr ⟨relay, operation, agent, foreign, there, rfl⟩)
    next => cases happened

theorem Settled.step {session after : Session} {move : Move} {announcement : Announcement}
    (settled : Settled session announcement) (moved : session.step? move = some after) : Settled after announcement := by
  obtain ⟨joined, closed⟩ := Session.step?_keeps moved
  obtain waiting | there | gone := settled
  · exact Session.step?_announcing moved waiting
  · exact Or.inr (Or.inl (joined there))
  · exact Or.inr (Or.inr (closed gone))

private theorem settled_of_announcing {session : Session} {place : Nat} {announcement : Announcement}
    (member : announcement ∈ announcing session place) : Settled session announcement := by
  unfold announcing at member
  split at member
  next last new waiting =>
    obtain rfl := List.mem_singleton.mp member
    exact Or.inl waiting
  next => cases member

private theorem Faithful.command (faithful : deployment.Faithful wiring) {move : Move} {session : Session}
    (allowed : deployment.Allows wiring move) (moved : deployment.session.step? move = some session) (place : Nat) :
    (deployment.command place session).Faithful wiring where
  sound := faithful.sound
  bound := faithful.bound
  known := by
    intro relay innerId new same
    obtain ⟨announcement, member, rest⟩ := faithful.known relay innerId new same
    exact ⟨announcement, List.mem_append_left _ member, rest⟩
  settled := by
    intro announcement member
    obtain before | new := List.mem_append.mp member
    · exact (faithful.settled announcement before).step moved
    · exact settled_of_announcing new
  within := by
    apply faithful.within.step moved
    rintro candidate rfl
    exact allowed

private theorem agent_of_set {agents : List Agent} {relay other : Nat} {changed agent : Agent}
    (found : (agents.set relay changed)[other]? = some agent) :
    other = relay ∧ agent = changed ∨ other ≠ relay ∧ agents[other]? = some agent := by
  rw [List.getElem?_set] at found
  split at found
  next same =>
    split at found
    next =>
      cases found
      exact Or.inl ⟨same.symm, rfl⟩
    next => cases found
  next different => exact Or.inr ⟨Ne.symm different, found⟩

private theorem Faithful.bound_set (faithful : deployment.Faithful wiring) {relay : Nat} {changed : Agent}
    {told : Nat → RelayId → Option Hop}
    (others : ∀ other innerId, other ≠ relay → told other innerId = deployment.told other innerId)
    (bound : ∀ exchange ∈ changed.table.exchanges, wiring.own relay exchange.link.connectionId = true →
      exchange.outer = (told relay exchange.innerId).map Hop.binding)
    (other : Nat) (agent : Agent) (exchange : Exchange) (found : (deployment.agents.set relay changed)[other]? = some agent)
    (member : exchange ∈ agent.table.exchanges) (own : wiring.own other exchange.link.connectionId = true) :
    exchange.outer = (told other exchange.innerId).map Hop.binding := by
  obtain ⟨rfl, rfl⟩ | ⟨different, before⟩ := agent_of_set found
  · exact bound exchange member own
  · rw [others other _ different]
    exact faithful.bound other agent exchange before member own

private theorem Faithful.sound_set (faithful : deployment.Faithful wiring) (relay : Nat) {changed : Agent}
    (sound : changed.table.Sound) (other : Nat) (agent : Agent)
    (found : (deployment.agents.set relay changed)[other]? = some agent) : agent.table.Sound := by
  obtain ⟨_, rfl⟩ | ⟨_, before⟩ := agent_of_set found
  · exact sound
  · exact faithful.sound other agent before

private theorem tell_other (relay : Nat) (innerId : RelayId) (hop : Option Hop) {other : Nat} {id : RelayId}
    (different : other ≠ relay ∨ id ≠ innerId) : deployment.tell relay innerId hop other id = deployment.told other id := by
  apply if_neg
  rintro ⟨rfl, rfl⟩
  exact different.elim (fun wrong => wrong rfl) fun wrong => wrong rfl

private theorem tell_same (relay : Nat) (innerId : RelayId) (hop : Option Hop) :
    deployment.tell relay innerId hop relay innerId = hop := if_pos ⟨rfl, rfl⟩

private theorem Faithful.operate (faithful : deployment.Faithful wiring) {relay : Nat} {agent : Agent} {operation : Operation}
    (foreign : Foreign wiring relay operation) (there : deployment.agents[relay]? = some agent) :
    (deployment.operate relay agent operation).Faithful wiring := by
  unfold Deployment.operate
  have sound := faithful.sound relay agent there
  have sounds := faithful.sound_set relay (Agent.after_sound sound operation)
  obtain ⟨added, adds, inner, _, _, _, free, table⟩ | ⟨adds, rest⟩ := agent.after_cases operation
  · rw [adds]
    refine ⟨sounds, faithful.bound_set ?_ ?_, ?_, faithful.settled, faithful.within⟩
    · intro other innerId different
      exact tell_other relay added.innerId none (Or.inl different)
    · intro exchange member own
      change exchange.outer = (deployment.tell relay added.innerId none relay exchange.innerId).map Hop.binding
      rw [table] at member
      obtain before | new := List.mem_append.mp member
      · have different : exchange.innerId ≠ added.innerId := by
          intro same
          exact inner (ExchangeTable.mem_ids.mpr ⟨exchange, before, Or.inl same.symm⟩)
        rw [tell_other relay added.innerId none (Or.inr different)]
        exact faithful.bound relay agent exchange there before own
      · obtain rfl := List.mem_singleton.mp new
        rw [tell_same, free]
        rfl
    · intro other innerId new same
      change deployment.tell relay added.innerId none other innerId = some new at same
      by_cases here : other = relay ∧ innerId = added.innerId
      · obtain ⟨rfl, rfl⟩ := here
        cases (tell_same _ _ none).symm.trans same
      · rw [tell_other relay added.innerId none (Classical.not_and_iff_not_or_not.mp here)] at same
        exact faithful.known other innerId new same
  · rw [adds]
    refine ⟨sounds, faithful.bound_set (fun _ _ _ => rfl) ?_, faithful.known, faithful.settled, faithful.within⟩
    intro exchange member own
    obtain ⟨id, block, now, rfl⟩ | change := rest
    · obtain ⟨_, same⟩ | ⟨_, owned, owns, table⟩ := agent.setup_cases id block now
      · change exchange ∈ (agent.setup id block now).1.table.exchanges at member
        rw [same] at member
        exact faithful.bound relay agent exchange there member own
      · change exchange ∈ (agent.setup id block now).1.table.exchanges at member
        rw [table] at member
        obtain rfl | ⟨before, _⟩ := ExchangeTable.mem_replace member
        · have connection : owned.link.connectionId = id := (Agent.mem_of_owned? owns).2.2
          change wiring.own relay owned.link.connectionId = true at own
          rw [connection, foreign] at own
          cases own
        · exact faithful.bound relay agent exchange there before own
    · obtain ⟨old, before, inner, _, link, bound⟩ := change.kept member
      rw [bound, inner]
      exact faithful.bound relay agent old there before (link ▸ own)

private theorem mem_set_of_ne {announcements : List Announcement} {index : Nat} {old new announcement : Announcement}
    (here : announcements[index]? = some old) (member : announcement ∈ announcements) (different : announcement ≠ old) :
    announcement ∈ announcements.set index new := by
  obtain ⟨place, there⟩ := List.getElem?_of_mem member
  have apart : index ≠ place := by
    rintro rfl
    exact different (Option.some.inj (there.symm.trans here))
  apply List.mem_of_getElem?
  rw [List.getElem?_set_ne apart, there]

private theorem Faithful.answer (faithful : deployment.Faithful wiring) {index : Nat} {announcement : Announcement}
    (here : deployment.announcements[index]? = some announcement) (pending : announcement.answer = none) {agent : Agent}
    (there : deployment.agents[wiring.host announcement.last.link.ref]? = some agent) (now : Micros) :
    (deployment.answer index announcement (wiring.host announcement.last.link.ref)
      (agent.setup announcement.last.link.connectionId announcement.block now)).Faithful wiring := by
  have sound := Agent.setup_sound (faithful.sound _ agent there) announcement.last.link.connectionId announcement.block now
  have cases := agent.setup_cases announcement.last.link.connectionId announcement.block now
  generalize host : wiring.host announcement.last.link.ref = relay at there
  generalize agent.setup announcement.last.link.connectionId announcement.block now = done at sound cases
  obtain ⟨changed, verdict⟩ := done
  have sounds := faithful.sound_set relay sound
  unfold Deployment.answer
  have settled : ∀ other ∈ deployment.announcements.set index { announcement with answer := some verdict },
      Settled deployment.session other := by
    intro other member
    obtain before | rfl := List.mem_or_eq_of_mem_set member
    · exact faithful.settled other before
    · exact faithful.settled announcement (List.mem_of_getElem? here)
  have known : ∀ other innerId new, deployment.told other innerId = some new →
      ∃ known ∈ deployment.announcements.set index { announcement with answer := some verdict }, known.new = new ∧
        known.last.innerId = innerId ∧ wiring.host known.last.link.ref = other ∧ known.answer = some .success := by
    intro other innerId new same
    obtain ⟨known, member, rest⟩ := faithful.known other innerId new same
    refine ⟨known, mem_set_of_ne here member ?_, rest⟩
    rintro rfl
    cases pending.symm.trans rest.2.2.2
  obtain ⟨refused, rfl⟩ | ⟨accepted, owned, owns, table⟩ := cases
  · rw [if_neg refused]
    exact ⟨sounds, faithful.bound_set (fun _ _ _ => rfl) fun exchange member own =>
      faithful.bound relay _ exchange there member own, known, settled, faithful.within⟩
  · change verdict = .success at accepted
    change changed.table = _ at table
    rw [if_pos accepted]
    have innerId : owned.innerId = announcement.last.innerId := (Agent.mem_of_owned? owns).2.1
    refine ⟨sounds, faithful.bound_set ?_ ?_, ?_, settled, faithful.within⟩
    · intro other id different
      exact tell_other relay announcement.last.innerId _ (Or.inl different)
    · intro exchange member own
      rw [table] at member
      obtain rfl | ⟨before, different⟩ := ExchangeTable.mem_replace member
      · change _ = (deployment.tell relay announcement.last.innerId (some announcement.new) relay
          owned.innerId).map Hop.binding
        rw [innerId, tell_same]
        rfl
      · have apart : exchange.innerId ≠ announcement.last.innerId := fun same => different (same.trans innerId.symm)
        change exchange.outer = (deployment.tell relay announcement.last.innerId (some announcement.new) relay
          exchange.innerId).map Hop.binding
        rw [tell_other relay announcement.last.innerId _ (Or.inr apart)]
        exact faithful.bound relay agent exchange there before own
    · intro other id new same
      by_cases mine : other = relay ∧ id = announcement.last.innerId
      · obtain ⟨rfl, rfl⟩ := mine
        cases (tell_same _ _ _).symm.trans same
        exact ⟨_, List.mem_set (List.getElem?_eq_some_iff.mp here).1 _, rfl, rfl, host, congrArg some accepted⟩
      · exact known other id new ((tell_other _ _ _ (Classical.not_and_iff_not_or_not.mp mine)).symm.trans same)

theorem Reachable.faithful {kind : CircuitKind} {config : CircuitConfig}
    (reached : Reachable wiring kind config deployment) : deployment.Faithful wiring := by
  induction reached with
  | @start agents fresh =>
    have empty (relay : Nat) (agent : Agent) (found : agents[relay]? = some agent) : agent.table = ExchangeTable.empty :=
      fresh agent (List.mem_of_getElem? found)
    refine ⟨?_, ?_, ?_, ?_, ?_, ?_⟩
    · intro relay agent found
      rw [empty relay agent found]
      exact ExchangeTable.sound_empty
    · intro relay agent exchange found member
      rw [empty relay agent found] at member
      cases member
    · intro relay innerId new same
      cases same
    · intro announcement member
      cases member
    · intro hop member
      cases member
    · intro call member
      cases member
  | @step before after event reached happened ih =>
    obtain ⟨move, session, allowed, moved, rfl⟩ | ⟨index, announcement, agent, now, here, pending, there, rfl⟩ |
      ⟨relay, operation, agent, foreign, there, rfl⟩ := step?_cases happened
    · exact ih.command allowed moved _
    · exact ih.answer here pending there now
    · exact ih.operate foreign there

theorem Reachable.run {kind : CircuitKind} {config : CircuitConfig} {after : Deployment} {events : List Event}
    (reached : Reachable wiring kind config deployment) (ran : deployment.run? wiring events = some after) :
    Reachable wiring kind config after := by
  induction events generalizing deployment with
  | nil =>
    cases ran
    exact reached
  | cons event events ih =>
    obtain ⟨middle, happened, rest⟩ := Option.bind_eq_some_iff.mp ran
    exact ih (reached.step happened) rest

theorem Reachable.session {kind : CircuitKind} {config : CircuitConfig} (reached : Reachable wiring kind config deployment) :
    Session.Reachable kind config deployment.session := by
  induction reached with
  | start => exact .start
  | @step before after event reached happened ih =>
    obtain ⟨move, session, _, moved, rfl⟩ | ⟨index, announcement, agent, now, _, _, _, rfl⟩ |
      ⟨relay, operation, agent, _, _, rfl⟩ := step?_cases happened
    · exact ih.step moved
    · exact ih
    · exact ih

/-- The relay of the last hop holds it for the outermost one exactly if it has accepted no announcement for its exchange.
Otherwise it is bound to the hop that it was told of last, though that may have left since or may never have joined, and
drops what others than that hop send to the client. -/
theorem outermost_binding {kind : CircuitKind} {config : CircuitConfig} {hop : Hop} {agent : Agent} {exchange : Exchange}
    (reached : Reachable wiring kind config deployment) (last : deployment.session.circuit.hops.getLast? = some hop)
    (there : deployment.agents[wiring.host hop.link.ref]? = some agent)
    (live : agent.owned? hop.link.connectionId hop.innerId = some exchange) :
    let told := deployment.told (wiring.host hop.link.ref) hop.innerId
    exchange.outer = told.map Hop.binding ∧
    (∀ now, (agent.ping hop.link.connectionId hop.innerId now).2.map PingResponse.outer = some (told.map Hop.endpoint)) ∧
    (told = none → ∀ sender content now, (agent.screen sender exchange.outerId content now).value =
      agent.judge exchange (Address.ofEndpoint sender) content now) ∧
    (∀ resolve salt sender datagram now, RelayIds.size ≤ datagram.length →
      ((agent.process resolve salt sender exchange.outerId datagram now).value = .ok (.dropped .invalidSender) ↔
        ∃ new, told = some new ∧ new.binding.Excludes sender)) ∧
    ∀ new, told = some new → ∃ announcement ∈ deployment.announcements, announcement.new = new ∧
      announcement.last.innerId = hop.innerId ∧ wiring.host announcement.last.link.ref = wiring.host hop.link.ref ∧
      announcement.answer = some .success ∧ Settled deployment.session announcement := by
  intro told
  have faithful := reached.faithful
  have sound := faithful.sound _ agent there
  obtain ⟨present, innerId, connection⟩ := Agent.mem_of_owned? live
  have joined := reached.session.accounted.present hop (List.mem_of_getLast? last)
  have own : wiring.own (wiring.host hop.link.ref) exchange.link.connectionId = true := by
    rw [connection]
    exact faithful.within.joined hop joined
  have bound : exchange.outer = told.map Hop.binding := by
    rw [faithful.bound _ agent exchange there present own, innerId]
  have found := sound.find?_outer present
  refine ⟨bound, ?_, ?_, ?_, ?_⟩
  · intro now
    rw [Agent.ping, live]
    change some (exchange.outer.map Binding.endpoint) = _
    rw [bound, Option.map_map]
    rfl
  · intro nobody sender content now
    rw [nobody] at bound
    exact agent.screen_unbound found bound sender content now
  · intro resolve salt sender datagram now long
    have named : exchange.outerId ≠ 0 := by
      intro zero
      exact sound.named (ExchangeTable.mem_ids.mpr ⟨exchange, present, Or.inr zero.symm⟩)
    rw [agent.process_invalidSender_iff found named resolve salt sender now long, bound]
    simp only [Option.map_eq_some_iff]
    constructor
    · rintro ⟨_, ⟨new, same, rfl⟩, wrong⟩
      exact ⟨new, same, wrong⟩
    · rintro ⟨new, same, wrong⟩
      exact ⟨_, ⟨new, same, rfl⟩, wrong⟩
  · intro new same
    obtain ⟨announcement, member, announced, inner, host, accepted⟩ := faithful.known _ _ new same
    exact ⟨announcement, member, announced, inner, host, accepted, faithful.settled announcement member⟩

end

section Cut
open Circuit (numberedHop)

def numberedWiring : Wiring := ⟨fun link => link - 1, fun _ _ => true⟩

/-- A circuit gets two hops, and then the second one dies. -/
def losesLast : List Event :=
  let assign (number : UInt8) : Event :=
    .operate (number.toNat - 1) (.add (numberedHop number).link ⟨(numberedHop number).key, true, true⟩ 0
      [(numberedHop number).innerId, (numberedHop number).outerId])
  [assign 1, assign 2, .client (.join (numberedHop 1).candidate), .client (.join (numberedHop 2).candidate), .arrive 0 0,
    .client (.wake 1 (.setup (some .success))), .client (.die 2), .client .clean]

def unused : Deployment := start .outgoing {} (List.replicate 2 ⟨{}, ExchangeTable.empty, EndpointCache.empty 1, []⟩)

theorem outermost_binding_lost : ∃ deployment, Reachable numberedWiring .outgoing {} deployment ∧
    deployment.session.circuit.hops = [numberedHop 1] ∧ ∃ agent exchange, deployment.agents[0]? = some agent ∧
      agent.owned? 1 (numberedHop 1).innerId = some exchange ∧ exchange.outer = some (numberedHop 2).binding := by
  cases ran : unused.run? numberedWiring losesLast with
  | none => cases ran
  | some deployment =>
    have reached : Reachable numberedWiring .outgoing {} deployment := (Reachable.start (by decide)).run ran
    cases ran
    obtain ⟨bound, _⟩ := outermost_binding reached rfl rfl rfl
    exact ⟨_, reached, rfl, _, _, rfl, rfl, bound⟩

/-- The relay of a last hop may still wait for packets from a hop that is gone. -/
theorem not_outermost_unbound : ¬ ∀ (wiring : Wiring) (kind : CircuitKind) (config : CircuitConfig) (deployment : Deployment)
    (hop : Hop) (agent : Agent) (exchange : Exchange), Reachable wiring kind config deployment →
    deployment.session.circuit.hops.getLast? = some hop → deployment.agents[wiring.host hop.link.ref]? = some agent →
    agent.owned? hop.link.connectionId hop.innerId = some exchange → exchange.outer = none := by
  intro unbound
  cases ran : unused.run? numberedWiring losesLast with
  | none => cases ran
  | some deployment =>
    have reached : Reachable numberedWiring .outgoing {} deployment := (Reachable.start (by decide)).run ran
    cases ran
    cases unbound numberedWiring .outgoing {} _ (numberedHop 1) _ _ reached rfl rfl rfl

end Cut
end Deployment
end OnionCircuit
