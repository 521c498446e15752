import OnionCircuit.Proofs.AuthenticPackets

/-! How long a datagram is after a relay. Each of the four ways through a relay adds or takes off a fixed number of bytes,
whatever the datagram holds, and the limit is only set to what comes out. On its way between client and last relay a packet
shows the same salt everywhere. -/

namespace OnionCircuit

/-- How a relay sends something on: to the next relay, out of the circuit, back from the next relay, or in from outside. -/
inductive Course
  | onward
  | exit
  | inward
  | origin
deriving DecidableEq

namespace Course

def growth : Course → Int
  | .onward => -16
  | .exit => -64
  | .inward => 16
  | .origin => 64

/-- Whether a datagram is a packet of the same circuit before and after. -/
def keepsSalt : Course → Bool
  | .onward | .inward => true
  | .exit | .origin => false

end Course

namespace Tag
variable {key : TagKey} {ids : RelayIds} {packet datagram : Bytes}

theorem length_of_wrap (wraps : wrap key ids packet = .ok datagram) : datagram.length = packet.length + 24 := by
  obtain ⟨_, rfl⟩ := wrap_eq_ok_iff.mp wraps
  rw [length_wrapped, RelayIds.size, Cipher.tagSize]
  omega

theorem salt_of_wrap (wraps : wrap key ids packet = .ok datagram) : (datagram.drop 8).take 4 = packet.take 4 := by
  obtain ⟨salted, rfl⟩ := wrap_eq_ok_iff.mp wraps
  exact salt_wrapped salted

end Tag

namespace Onion
variable {embryo : Embryo} {packet covered : Bytes}

theorem length_of_add (adds : add embryo packet = .ok covered) : covered.length = packet.length + 16 := by
  obtain ⟨_, rfl⟩ := add_eq_ok_iff.mp adds
  exact length_cover embryo packet

theorem salt_of_add (adds : add embryo packet = .ok covered) : covered.take 4 = packet.take 4 := by
  obtain ⟨enough, rfl⟩ := add_eq_ok_iff.mp adds
  exact take_cover (Nat.le_trans Header.saltSize_le_size enough)

end Onion

theorem Reading.of_toward_passing {key : TagKey} {source : RelayId} {next : Endpoint} {packet : Bytes} {parcel : Outbound}
    (passes : toward key source next packet = .passing parcel) :
    Tag.wrap key ⟨source, next.relayId⟩ packet = .ok parcel.datagram := by
  unfold toward at passes
  split at passes
  next out wraps =>
    cases passes
    exact wraps
  next => cases passes

namespace Exchange
variable {exchange : Exchange} {packet datagram content : Bytes} {parcel : Outbound}

theorem Seals.length (seals : exchange.Seals packet datagram) : datagram.length = packet.length + 40 := by
  obtain ⟨covered, adds, wraps⟩ := seals
  rw [Tag.length_of_wrap wraps, Onion.length_of_add adds]

theorem Seals.salt (seals : exchange.Seals packet datagram) : (datagram.drop 8).take 4 = packet.take 4 := by
  obtain ⟨covered, adds, wraps⟩ := seals
  rw [Tag.salt_of_wrap wraps, Onion.salt_of_add adds]

theorem of_readOutward_passing (passes : exchange.readOutward datagram = .passing parcel) :
    ∃ packet, exchange.Seals packet datagram ∧ ¬ Header.Bare packet ∧ parcel.datagram.length = packet.length + 24 ∧
      (parcel.datagram.drop 8).take 4 = packet.take 4 := by
  unfold readOutward at passes
  split at passes
  next => cases passes
  next packet opens =>
    have seals := open?_eq_some_iff.mp opens
    split at passes
    · split at passes
      · cases passes
      · split at passes <;> cases passes
    next covered =>
      split at passes
      · cases passes
      · have wraps := Reading.of_toward_passing passes
        refine ⟨packet, seals, ?_, Tag.length_of_wrap wraps, Tag.salt_of_wrap wraps⟩
        intro bare
        exact covered (Header.isTerminal_iff.mpr ⟨seals.enough, bare⟩)

theorem of_readOutward_leaving {address : Address} (leaves : exchange.readOutward datagram = .leaving address content) :
    ∃ packet, exchange.Seals packet datagram ∧ Header.Bare packet ∧ content = packet.drop Header.size := by
  unfold readOutward at leaves
  split at leaves
  next => cases leaves
  next packet opens =>
    split at leaves
    next terminal =>
      split at leaves
      · cases leaves
      · split at leaves
        · cases leaves
        · cases leaves
          exact ⟨packet, open?_eq_some_iff.mp opens, (Header.isTerminal_iff.mp terminal).2, rfl⟩
    · split at leaves
      · cases leaves
      · unfold Reading.toward at leaves
        split at leaves <;> cases leaves

theorem of_readRelayed_passing {next : Binding} (passes : exchange.readRelayed next datagram = .passing parcel) :
    parcel.datagram.length = datagram.length + 16 ∧
      (parcel.datagram.drop 8).take 4 = (datagram.drop 8).take 4 := by
  unfold readRelayed at passes
  split at passes
  next => cases passes
  next packet opens =>
    have came := Tag.wrap_of_unwrap opens
    split at passes
    next => cases passes
    next covered adds =>
      have goes := Reading.of_toward_passing passes
      constructor
      · rw [Tag.length_of_wrap goes, Onion.length_of_add adds, Tag.length_of_wrap came]
      · rw [Tag.salt_of_wrap goes, Onion.salt_of_add adds, Tag.salt_of_wrap came]

theorem of_readEntering_passing {salt : UInt32} {sender : Address}
    (passes : exchange.readEntering salt sender content = .passing parcel) :
    parcel.datagram.length = content.length + 72 := by
  rw [Tag.length_of_wrap (Reading.of_toward_passing passes), Onion.length_pack, Header.size, Cipher.tagSize,
    List.length_singleton]
  omega

end Exchange

namespace Agent
variable {agent : Agent} {sender : Endpoint} {relayId : RelayId} {datagram : Bytes}

/-- What a datagram is to a relay that may send it on. -/
inductive Takes (agent : Agent) (sender : Endpoint) (relayId : RelayId) (datagram : Bytes) : Course → Prop
  | onward {exchange : Exchange} {packet : Bytes} (found : agent.table.find? relayId = some (exchange, .outward))
    (seals : exchange.Seals packet datagram) (covered : ¬ Header.Bare packet) : Takes agent sender relayId datagram .onward
  | exit {exchange : Exchange} {packet : Bytes} (found : agent.table.find? relayId = some (exchange, .outward))
    (seals : exchange.Seals packet datagram) (bare : Header.Bare packet) : Takes agent sender relayId datagram .exit
  | inward {exchange : Exchange} {next : Binding} (found : agent.table.find? relayId = some (exchange, .inward))
    (bound : exchange.outer = some next) (relay : sender = next.endpoint) : Takes agent sender relayId datagram .inward
  | origin {exchange : Exchange} (found : agent.table.find? relayId = some (exchange, .inward))
    (outside : ∀ next, exchange.outer = some next → sender ≠ next.endpoint) : Takes agent sender relayId datagram .origin

theorem Takes.unique {course other : Course} (takes : agent.Takes sender relayId datagram course)
    (also : agent.Takes sender relayId datagram other) : other = course := by
  cases takes with
  | onward found seals covered =>
    cases also with
    | onward => rfl
    | exit same sealed bare =>
      cases found.symm.trans same
      rw [seals.unique sealed] at bare
      exact absurd bare covered
    | inward same | origin same => cases found.symm.trans same
  | exit found seals bare =>
    cases also with
    | exit => rfl
    | onward same sealed covered =>
      cases found.symm.trans same
      rw [seals.unique sealed] at covered
      exact absurd bare covered
    | inward same | origin same => cases found.symm.trans same
  | inward found bound relay =>
    cases also with
    | inward => rfl
    | origin same outside =>
      cases found.symm.trans same
      exact absurd relay (outside _ bound)
    | onward same | exit same => cases found.symm.trans same
  | origin found outside =>
    cases also with
    | origin => rfl
    | inward same bound relay =>
      cases found.symm.trans same
      exact absurd relay (outside _ bound)
    | onward same | exit same => cases found.symm.trans same

/-- Where a datagram comes from that is accepted. -/
inductive ComesFrom (agent : Agent) (sender : Endpoint) (relayId : RelayId) : Accepted → Prop
  | client {exchange : Exchange} (found : agent.table.find? relayId = some (exchange, .outward)) :
    ComesFrom agent sender relayId ⟨exchange, .outward⟩
  | next {exchange : Exchange} {next : Binding} (found : agent.table.find? relayId = some (exchange, .inward))
    (bound : exchange.outer = some next) (relay : sender = next.endpoint) :
    ComesFrom agent sender relayId ⟨exchange, .relayed next⟩
  | outside {exchange admitted : Exchange} {address : Address}
    (found : agent.table.find? relayId = some (exchange, .inward))
    (outside : ∀ next, exchange.outer = some next → sender ≠ next.endpoint) :
    ComesFrom agent sender relayId ⟨admitted, .entering address⟩

theorem comesFrom_of_accepted? {accepted : Accepted} {now : Micros}
    (accepts : agent.accepted? sender relayId datagram now = some accepted) : agent.ComesFrom sender relayId accepted := by
  obtain ⟨⟨named, long⟩, screened⟩ := accepted?_eq_some.mp accepts
  have gate := agent.screen_gate sender relayId (datagram.drop RelayIds.size) now
  generalize done : agent.screen sender relayId (datagram.drop RelayIds.size) now = step at gate screened
  cases gate with
  | client found own =>
    cases screened
    exact .client found
  | @neighbour exchange next passage found bound includes inward =>
    cases screened
    by_cases relay : sender = next.endpoint
    · have passed := accepted?_next found bound named long now
      rw [← relay, accepts] at passed
      cases passed
      exact .next found bound relay
    · -- A sender at the socket of the next hop that is not the next hop speaks for itself.
      have passed := congrArg AgentStep.value done
      simp only [screen, found, bound, apply_ite AgentStep.value, accept] at passed
      have outside : ∀ other, exchange.outer = some other → sender ≠ other.endpoint := by
        intro other same
        cases bound.symm.trans same
        exact relay
      split at passed
      next => cases passed
      next here =>
        split at passed
        next same =>
          cases sender
          cases Decidable.not_not.mp here
          cases same
          exact absurd rfl relay
        next =>
          split at passed
          next =>
            cases passed
            exact .outside found outside
          next => cases passed
  | known found free | newcomer found free =>
    cases screened
    refine .outside found ?_
    intro next bound
    cases free.symm.trans bound
  | nobody | foreign | excluded | restricted | fault => cases screened

theorem parcel?_takes {resolve : Resolver} {salt : UInt32} {now : Micros} {parcel : Outbound}
    (becomes : agent.parcel? (.process resolve salt sender relayId datagram now) = some parcel) :
    ∃ course, agent.Takes sender relayId datagram course ∧
      (parcel.datagram.length : Int) = datagram.length + course.growth ∧
      (course.keepsSalt = true → (parcel.datagram.drop 8).take 4 = (datagram.drop 8).take 4) := by
  obtain ⟨accepted, accepts, becomes⟩ := Option.bind_eq_some_iff.mp becomes
  obtain ⟨⟨_, long⟩, _⟩ := accepted?_eq_some.mp accepts
  cases reads : accepted.reading salt datagram with
  | unreadable | arrived =>
    rw [reads] at becomes
    cases becomes
  | leaving address content =>
    rw [reads, becomes?] at becomes
    obtain ⟨outward, reads⟩ := outward_of_leaving reads
    cases comesFrom_of_accepted? accepts with
    | client found =>
      obtain ⟨packet, seals, bare, rfl⟩ := Exchange.of_readOutward_leaving reads
      have enough := seals.enough
      split at becomes
      next => cases becomes
      next =>
        obtain ⟨target, _, rfl⟩ := Option.map_eq_some_iff.mp becomes
        refine ⟨.exit, .exit found seals bare, ?_, fun keeps => absurd keeps Bool.false_ne_true⟩
        simp only [Header.size] at enough
        simp only [List.length_append, RelayIds.length_bytes, List.length_drop, seals.length, Course.growth, Header.size,
          RelayIds.size]
        omega
    | next | outside => cases outward
  | passing packet =>
    rw [reads] at becomes
    cases becomes
    cases comesFrom_of_accepted? accepts with
    | client found =>
      obtain ⟨packet, seals, covered, length, salt⟩ := Exchange.of_readOutward_passing reads
      refine ⟨.onward, .onward found seals covered, ?_, fun _ => salt.trans seals.salt.symm⟩
      rw [length, seals.length, Course.growth]
      omega
    | next found bound relay =>
      obtain ⟨length, salt⟩ := Exchange.of_readRelayed_passing reads
      refine ⟨.inward, .inward found bound relay, ?_, fun _ => salt⟩
      rw [length, Course.growth, Int.natCast_add]
      rfl
    | outside found outside =>
      have length := Exchange.of_readEntering_passing reads
      refine ⟨.origin, .origin found outside, ?_, fun keeps => absurd keeps Bool.false_ne_true⟩
      simp only [RelayIds.size] at long
      rw [length, List.length_drop, Course.growth, RelayIds.size]
      omega

theorem Posts.tooLarge_iff {parcel : Outbound} {done : Processed} (posts : agent.Posts parcel done) :
    done.value = .ok (.dropped .tooLarge) ↔ 1432 < parcel.datagram.length := by
  cases posts with
  | tooLarge large value => exact iff_of_true value large
  | sent small room value | queueFull small full value =>
    refine iff_of_false ?_ (Nat.not_lt.mpr small)
    intro dropped
    cases value.symm.trans dropped

theorem reaches_queue_iff (agent : Agent) (resolve : Resolver) (salt : UInt32) (sender : Endpoint) (relayId : RelayId)
    (datagram : Bytes) (now : Micros) :
    (∃ outcome, (agent.process resolve salt sender relayId datagram now).value = .ok outcome ∧ outcome.atQueue = true) ↔
      ∃ parcel, agent.parcel? (.process resolve salt sender relayId datagram now) = some parcel := by
  have offers := agent.process_parcel resolve salt sender relayId datagram now
  cases becomes : agent.parcel? (.process resolve salt sender relayId datagram now) with
  | some parcel =>
    simp only [becomes] at offers
    exact iff_of_true offers.posts.atQueue ⟨parcel, rfl⟩
  | none =>
    simp only [becomes] at offers
    refine iff_of_false ?_ nofun
    intro reached
    obtain ⟨outcome, value, queued⟩ := reached
    cases queued.symm.trans (offers.outcome outcome value)

/-- A datagram that gets as far as the queue goes one way, grows by what this way adds, and is too large exactly if that
takes it over the limit. Between relays it shows the salt that it came with. -/
theorem datagram_growth (agent : Agent) (resolve : Resolver) (salt : UInt32) (sender : Endpoint) (relayId : RelayId)
    (datagram : Bytes) (now : Micros) :
    let done := agent.process resolve salt sender relayId datagram now
    let parcel? := agent.parcel? (.process resolve salt sender relayId datagram now)
    ((∃ outcome, done.value = .ok outcome ∧ outcome.atQueue = true) ↔ ∃ parcel, parcel? = some parcel) ∧
    ∀ parcel, parcel? = some parcel → agent.Posts parcel done ∧
      ∃ course, (∀ other, agent.Takes sender relayId datagram other ↔ other = course) ∧
        (parcel.datagram.length : Int) = datagram.length + course.growth ∧
        (done.value = .ok (.dropped .tooLarge) ↔ 1432 < datagram.length + course.growth) ∧
        (course.keepsSalt = true → (parcel.datagram.drop 8).take 4 = (datagram.drop 8).take 4) := by
  intro done parcel?
  refine ⟨agent.reaches_queue_iff resolve salt sender relayId datagram now, ?_⟩
  intro parcel becomes
  have offers := agent.process_parcel resolve salt sender relayId datagram now
  simp only [parcel?] at becomes
  simp only [becomes] at offers
  have posts := offers.posts
  obtain ⟨course, takes, length, salted⟩ := parcel?_takes becomes
  refine ⟨posts, course, ?_, length, ?_, salted⟩
  · intro other
    refine ⟨takes.unique, ?_⟩
    intro same
    rwa [same]
  · rw [← length, posts.tooLarge_iff]
    exact Int.ofNat_lt.symm

/-- Content of a client that is one byte too long for the largest datagram. -/
theorem datagram_growth_limit :
    let agent := (fresh {}).run [closedAdd]
    let exchange := closedExchange ({} : AgentConfig).toAgentLimits
    let content : Bytes := 4 :: 0 :: List.replicate 1423 0
    let datagram := Tag.wrapped exchange.innerKey ⟨0, 1⟩
      (Onion.pack [exchange.link.embryo] 0 (Address.ofEndpoint (stranger 2)) content)
    datagram.length = 1497 ∧ agent.Takes exchange.link.endpoint 1 datagram .exit ∧
      agent.outcome? (closedSend 2 content 1000000) = some (.dropped .tooLarge) := by
  intro agent exchange content datagram
  have roomy : 0 < ({} : AgentConfig).maxExchanges.toNat := by decide
  have length : datagram.length = 1497 := by
    simp only [datagram, content, Tag.length_wrapped, Onion.length_pack, List.length_cons, List.length_nil,
      List.length_replicate, RelayIds.size, Header.size, Cipher.tagSize]
  have takes : agent.Takes exchange.link.endpoint 1 datagram .exit :=
    .exit (find?_closedAdd roomy) (exchange.seals_pack ⟨0, 1⟩ 0 _ content) (Onion.bare_pack_nil _ _ _)
  have fits : ¬ agent.Overflows content 1000000 := by
    intro overflows
    exact absurd overflows.1 (by decide)
  obtain ⟨parcel, becomes⟩ := (exits_closedSend roomy 2 content 1000000 (by decide)).parcel?.2 fits
  obtain ⟨_, reached⟩ := agent.datagram_growth (fun address => some ⟨address.relayId, address.socket⟩) 0
    exchange.link.endpoint 1 datagram 1000000
  obtain ⟨_, course, only, _, large, _⟩ := reached parcel becomes
  obtain rfl := (only .exit).mp takes
  refine ⟨length, takes, ?_⟩
  have value := large.mpr (by rw [length]; decide)
  exact congrArg Except.toOption value

end Agent
end OnionCircuit
