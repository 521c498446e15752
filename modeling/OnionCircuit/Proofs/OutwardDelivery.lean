import OnionCircuit.Circuit.Key
import OnionCircuit.Proofs.Journey

/-! A packet goes out through a circuit. Each hop on the way takes off one layer and wraps
what is left for the next hop; the hop that the depth names reads where the packet is for. -/

namespace OnionCircuit.Circuit

/-- How many hops a depth reaches: exactly so many if it is negative, else all of them. -/
def reach (depth : Int32) (hops : List Hop) : Nat := if depth.toInt < 0 then depth.toInt.natAbs else hops.length

/-- A packet on its way to a hop that is not reached before `place` layers are gone. -/
def outbound (client : SocketAddress) (hops path : List Hop) (salt : UInt32) (destination : Address) (content : Bytes)
    (place : Nat) (hop : Hop) : Flight :=
  let source := origin client hops place
  ⟨source.socket, hop.endpoint.socket, Tag.wrapped hop.key ⟨source.relayId, hop.innerId⟩
    (Onion.pack (embryos (path.drop place)) salt destination content)⟩

section
variable {sites : Sites} {client : SocketAddress} {hops : List Hop} {salt : UInt32} {destination : Address}
  {content : Bytes} {count : Nat}

private theorem embryos_drop {place : Nat} {hop : Hop} (here : hops[place]? = some hop) (inside : place < count) :
    embryos ((hops.take count).drop place) = hop.link.embryo :: embryos ((hops.take count).drop (place + 1)) := by
  obtain ⟨bound, same⟩ := List.getElem?_eq_some_iff.mp here
  have shorter : place < (hops.take count).length := by
    rw [List.length_take]
    omega
  rw [List.drop_eq_getElem_cons shorter, List.getElem_take, same]
  rfl

private theorem length_embryos_drop (place : Nat) (enough : count ≤ hops.length) :
    (embryos ((hops.take count).drop place)).length = count - place := by
  simp only [embryos, List.length_map, List.length_drop, List.length_take, Nat.min_eq_left enough]

private theorem receive_outbound {path : List Hop} {place : Nat} {hop : Hop} (site : Site) (moment : Moment) :
    site.receive moment (outbound client hops path salt destination content place hop) =
      site.agent.process site.resolve moment.salt (origin client hops place) hop.innerId
        (Tag.wrapped hop.key ⟨(origin client hops place).relayId, hop.innerId⟩
          (Onion.pack (embryos (path.drop place)) salt destination content)) moment.now := by
  simp only [Site.receive, outbound, Tag.ofBytes_wrapped]

variable (built : Established sites client hops) (enough : count ≤ hops.length)
  (veiled : Onion.Veiled salt destination content (embryos (hops.take count)))
  (room : ∀ hop ∈ hops.take count, ∀ site, sites hop.endpoint.socket = some site → site.agent.HasRoom)
  (small : ∀ layers, 0 < layers → layers < count → forwardedSize content layers ≤ Datagram.largest)

include built enough veiled room small in
/-- A hop before the last one passes the packet on to the next hop, a layer less. -/
private theorem outbound_step {journey : Journey} {place : Nat} {hop next : Hop} (moment : Moment)
    (here : hops[place]? = some hop) (there : hops[place + 1]? = some next) (inside : place + 1 < count)
    (flight : journey.flight = outbound client hops (hops.take count) salt destination content place hop)
    (kept : journey.sites hop.endpoint.socket = sites hop.endpoint.socket) :
    ∃ site after packet, journey.advance? moment = some (journey.onward site after packet) ∧
      (journey.onward site after packet).flight =
        outbound client hops (hops.take count) salt destination content (place + 1) next := by
  obtain ⟨site, exchange, found, hosts, bound⟩ := built.hosted place hop here
  have member : hop ∈ hops.take count := by
    apply List.mem_of_getElem? (i := place)
    rw [List.getElem?_take_of_lt (by omega), here]
  have named := (built.named hop (List.mem_of_getElem? here)).1
  have target : journey.flight.target = hop.endpoint.socket := by rw [flight]; rfl
  have present : journey.sites journey.flight.target = some site := by rw [target, kept, found]
  have left := length_embryos_drop (place + 1) enough
  have deeper : Header.isTerminal (Onion.pack (embryos ((hops.take count).drop (place + 1))) salt destination content) =
      false := by
    have total : place + 1 < (embryos (hops.take count)).length := by
      simp only [embryos, List.length_map, List.length_take]
      omega
    have unread := veiled (place + 1) (by omega) total
    rwa [embryos, ← List.map_drop] at unread
  have offers := Agent.process_onward hosts.inner named hosts.client.symm site.resolve moment.salt
    ⟨(origin client hops place).relayId, hop.innerId⟩ moment.now (bound next there)
    (Onion.size_le_pack salt destination content (embryos ((hops.take count).drop (place + 1)))) deeper
  rw [hosts.key, hosts.embryo, ← Onion.pack_cons, ← embryos_drop here (by omega), ← receive_outbound, ← flight,
    hosts.ids.2] at offers
  have short : (Tag.wrapped next.key ⟨hop.outerId, next.endpoint.relayId⟩
      (Onion.pack (embryos ((hops.take count).drop (place + 1))) salt destination content)).length ≤ Datagram.largest := by
    have fits := small (count - (place + 1)) (by omega) (by omega)
    rw [Tag.length_wrapped, Onion.length_pack, left]
    simp only [forwardedSize] at fits
    omega
  refine ⟨site, _, _, Journey.advance?_of_sends present (offers.sends short (room hop member site found)), ?_⟩
  simp only [Journey.onward, outbound, target, origin_succ here]
  rfl

include built enough veiled room small in
/-- After as many hops as have forwarded it, the packet is at the next one, and nobody from there on has seen it. -/
private theorem outbound_follow {first : Hop} (start : hops[0]? = some first) (moments : List Moment) (place : Nat)
    (inside : place < count) (timed : place ≤ moments.length) :
    ∃ journey hop,
      (Journey.start sites (outbound client hops (hops.take count) salt destination content 0 first)).follow?
        (moments.take place) = some journey ∧
      hops[place]? = some hop ∧
      journey.flight = outbound client hops (hops.take count) salt destination content place hop ∧
      journey.passed = (hops.take place).map (fun hop => hop.endpoint.socket) ∧
      ∀ later other, place ≤ later → hops[later]? = some other →
        journey.sites other.endpoint.socket = sites other.endpoint.socket := by
  induction place with
  | zero => exact ⟨_, first, rfl, start, rfl, rfl, fun _ _ _ _ => rfl⟩
  | succ place ih =>
    obtain ⟨journey, hop, reached, here, flight, passed, kept⟩ := ih (by omega) (by omega)
    have there : hops[place + 1]? = some hops[place + 1] := List.getElem?_eq_getElem (by omega)
    have moment : moments[place]? = some moments[place] := List.getElem?_eq_getElem (by omega)
    obtain ⟨site, after, packet, advances, next⟩ := outbound_step built enough veiled room small moments[place] here there
      inside flight (kept place hop (Nat.le_refl _) here)
    have target : journey.flight.target = hop.endpoint.socket := by rw [flight]; rfl
    refine ⟨journey.onward site after packet, hops[place + 1], ?_, there, next, ?_, ?_⟩
    · rw [Journey.follow?_take_succ reached moment, advances]
    · simp only [Journey.onward, passed, target, List.take_add_one, here, Option.toList_some, List.map_append,
        List.map_cons, List.map_nil]
    · intro later other beyond found
      have different : other.endpoint.socket ≠ journey.flight.target := by
        rw [target]
        exact (apart_at built.apart here found (by omega)).symm
      rw [Journey.sites_onward different]
      exact kept later other (by omega) found

/-- A packet that can be made has the tag layer of the first hop over one layer for each hop that the depth reaches. -/
theorem encrypt_reaching {first : Hop} (start : hops.head? = some first) (kind : CircuitKind) {depth : Int32}
    (asked : 0 < depth.toInt.natAbs) (enough : depth.toInt.natAbs ≤ hops.length) (salt : UInt32) (destination : Address)
    (content : Bytes) : (CircuitKey.ofHops kind hops).encrypt salt depth destination content =
      .ok (Tag.wrapped first.key ⟨0, first.innerId⟩
        (Onion.pack (embryos (hops.take (reach depth hops))) salt destination content)) := by
  have some : ¬ depth.toInt.natAbs = 0 := by omega
  have all : ¬ (CircuitKey.ofHops kind hops).size < depth.toInt.natAbs := by
    simp only [CircuitKey.size, CircuitKey.ofHops, List.length_map]
    omega
  have layers : (if depth.toInt < 0 then (CircuitKey.ofHops kind hops).layers.take depth.toInt.natAbs
      else (CircuitKey.ofHops kind hops).layers) = embryos (hops.take (reach depth hops)) := by
    by_cases backward : depth.toInt < 0
    · simp only [backward, if_true, reach, CircuitKey.ofHops, embryos, List.map_take]
    · simp only [backward, if_false, reach, CircuitKey.ofHops, embryos, List.take_length]
  have key : (CircuitKey.ofHops kind hops).first = .some (first.endpoint, first.key) := by
    simp only [CircuitKey.ofHops, start, Option.map_some]
  simp only [CircuitKey.encrypt, key, some, all, if_false, layers, Hop.innerId]
  rw [Tag.wrap_eq_wrapped (Onion.salted_pack salt destination content _)]

private theorem encrypt_outbound {first : Hop} (start : hops.head? = some first) (kind : CircuitKind) {depth : Int32}
    (asked : 0 < depth.toInt.natAbs) (enough : depth.toInt.natAbs ≤ hops.length) :
    (CircuitKey.ofHops kind hops).encrypt salt depth destination content =
      .ok (outbound client hops (hops.take (reach depth hops)) salt destination content 0 first).datagram :=
  encrypt_reaching start kind asked enough salt destination content

/-- The last hop hands the content to its own node as coming from `source`, or sends it with its outer id. -/
def Arrives (agent : Agent) (done : Processed) (source : Endpoint) (outerId : RelayId) (destination : Address)
    (target : Endpoint) (content : Bytes) : Prop :=
  if destination.isRelay then done.value = .ok (.delivered source content) ∧ done.agent.queue = agent.queue
  else done.value = .ok (.forwarded target.socket) ∧
    done.agent.queue = agent.queue ++ [⟨target.socket, (RelayIds.mk outerId target.relayId).bytes ++ content⟩]

/-- Where the content has to go from the last hop: to its own node, or in a datagram that is not too large to an
endpoint that the hop knows or finds out. -/
def Reachable (site : Site) (destination : Address) (target : Endpoint) (content : Bytes) : Prop :=
  destination.isRelay = true ∨ (site.agent.cache.lookup site.resolve destination).endpoint = some target ∧
    RelayIds.size + content.length ≤ Datagram.largest

/-- What the last hop makes of a packet for it. It fails exactly if it has no number for the time until when the
destination may answer. -/
private theorem exit_outbound (salt : UInt32) {hop : Hop} {site : Site} {exchange : Exchange} {source target : Endpoint}
    (hosts : Hosts site.agent hop source exchange) (named : hop.innerId ≠ 0) (room : site.agent.HasRoom)
    (reachable : Reachable site destination target content) (moment : Moment) :
    let done := site.agent.process site.resolve moment.salt source hop.innerId
      (Tag.wrapped hop.key ⟨source.relayId, hop.innerId⟩ (Onion.pack [hop.link.embryo] salt destination content)) moment.now
    (Arrives site.agent done source hop.outerId destination target content ↔
      ¬ (destination.isRelay = false ∧ site.agent.Overflows content moment.now)) ∧
    (destination.isRelay = false ∧ site.agent.Overflows content moment.now → done.value = .error .addition) := by
  intro done
  have outer := hosts.ids.2
  cases here : destination.isRelay with
  | true =>
    have delivers := Agent.process_delivers hosts.inner named hosts.client.symm site.resolve moment.salt
      ⟨source.relayId, hop.innerId⟩ moment.now salt content here
    rw [hosts.key, hosts.embryo, hosts.client] at delivers
    simp only [Arrives, here, if_true, Bool.true_eq_false, false_and, not_false_eq_true, iff_true, false_implies, and_true]
    exact delivers
  | false =>
    obtain ⟨known, small⟩ := reachable.resolve_left (by simp [here])
    have exits := Agent.process_exits hosts.inner named hosts.client.symm site.resolve moment.salt
      ⟨source.relayId, hop.innerId⟩ moment.now salt content here known
    rw [hosts.key, hosts.embryo, outer] at exits
    obtain ⟨fails, offers⟩ := exits
    simp only [Arrives, here, Bool.false_eq_true, if_false, true_and]
    refine ⟨⟨fun arrives overflows => ?_, fun fits => ?_⟩, fails⟩
    · cases arrives.1.symm.trans (fails overflows)
    · apply (offers fits).sends _ room
      simpa only [List.length_append, RelayIds.length_bytes] using small

end

/-- A packet for a depth can be made for an established circuit from `first` to `exit`, is not recognised too early,
fits everywhere, and its destination can be reached from the last hop. -/
structure Sendable (sites : Sites) (client : SocketAddress) (hops : List Hop) (first exit : Hop) (depth : Int32)
    (salt : UInt32) (destination : Address) (content : Bytes) (site : Site) (target : Endpoint) : Prop where
  built : Established sites client hops
  start : hops.head? = some first
  asked : 0 < depth.toInt.natAbs
  enough : depth.toInt.natAbs ≤ hops.length
  veiled : Onion.Veiled salt destination content (embryos (hops.take (reach depth hops)))
  room : ∀ hop ∈ hops.take (reach depth hops), ∀ site, sites hop.endpoint.socket = some site → site.agent.HasRoom
  small : ∀ layers, 0 < layers → layers < reach depth hops → forwardedSize content layers ≤ Datagram.largest
  last : hops[reach depth hops - 1]? = some exit
  there : sites exit.endpoint.socket = some site
  reachable : Reachable site destination target content

/-- A packet for a depth passes the hops before the one that the depth names, in order, and no others. That hop does
with the content what the destination says, unless it has no number for the time until when it may be answered. -/
theorem encrypt_arrives_iff {sites : Sites} {client : SocketAddress} {hops : List Hop} {first exit : Hop} {depth : Int32}
    {salt : UInt32} {destination : Address} {content : Bytes} {site : Site} {target : Endpoint}
    (sendable : Sendable sites client hops first exit depth salt destination content site target) (kind : CircuitKind)
    (moments : List Moment) (timed : moments.length + 1 = reach depth hops) (moment : Moment) :
    ∃ datagram journey,
      (CircuitKey.ofHops kind hops).encrypt salt depth destination content = .ok datagram ∧
      (Journey.start sites ⟨client, first.endpoint.socket, datagram⟩).follow? moments = some journey ∧
      journey.passed = (hops.take (reach depth hops - 1)).map (fun hop => hop.endpoint.socket) ∧
      journey.flight.target = exit.endpoint.socket ∧ journey.sites exit.endpoint.socket = some site ∧
      (Arrives site.agent (site.receive moment journey.flight) (origin client hops (reach depth hops - 1)) exit.outerId
          destination target content ↔
        ¬ (destination.isRelay = false ∧ site.agent.Overflows content moment.now)) ∧
      (destination.isRelay = false ∧ site.agent.Overflows content moment.now →
        (site.receive moment journey.flight).value = .error .addition) := by
  obtain ⟨built, start, asked, enough, veiled, room, small, last, there, reachable⟩ := sendable
  have short : reach depth hops ≤ hops.length := by
    unfold reach
    split <;> omega
  have first_at : hops[0]? = some first := by rw [← List.head?_eq_getElem?, start]
  obtain ⟨journey, hop, reached, here, flight, passed, kept⟩ := outbound_follow built short veiled room small first_at
    moments (reach depth hops - 1) (by omega) (by omega)
  obtain rfl : hop = exit := Option.some.inj (here.symm.trans last)
  obtain ⟨known, exchange, found, hosts, _⟩ := built.hosted _ hop last
  obtain rfl : known = site := Option.some.inj (found.symm.trans there)
  have member : hop ∈ hops.take (reach depth hops) := by
    apply List.mem_of_getElem? (i := reach depth hops - 1)
    rw [List.getElem?_take_of_lt (by omega), last]
  have layers : embryos ((hops.take (reach depth hops)).drop (reach depth hops - 1)) = [hop.link.embryo] := by
    rw [embryos_drop last (by omega), Nat.sub_add_cancel (by omega), List.drop_of_length_le (List.length_take_le _ _)]
    rfl
  have all : moments.take (reach depth hops - 1) = moments := List.take_of_length_le (by omega)
  obtain ⟨arrives, fails⟩ := exit_outbound salt hosts
    (built.named hop (List.mem_of_getElem? last)).1 (room hop member known found) reachable moment
  have sent : (CircuitKey.ofHops kind hops).encrypt salt depth destination content =
      .ok (outbound client hops (hops.take (reach depth hops)) salt destination content 0 first).datagram :=
    encrypt_outbound start kind asked enough
  refine ⟨_, journey, sent, ?_, passed, ?_, ?_, ?_⟩
  · rw [← all, ← reached]
    rfl
  · rw [flight]
    rfl
  · rw [kept _ hop (Nat.le_refl _) last, found]
  · rw [flight, receive_outbound, layers]
    exact ⟨arrives, fails⟩

theorem encrypt_arrives_pair : ∃ (datagram : Bytes) (journey : Journey) (site : Site),
    (CircuitKey.ofHops .outgoing [numberedHop 1, numberedHop 2]).encrypt 7 2 (Address.ofSocket 0 (numberedSocket 9)) [4, 0] =
      .ok datagram ∧
    (Journey.start (freshSites {} (numberedSocket 8) [numberedHop 1, numberedHop 2])
      ⟨numberedSocket 8, numberedSocket 1, datagram⟩).follow? [⟨1000000, 0⟩] = some journey ∧
    journey.passed = [numberedSocket 1] ∧ journey.sites (numberedSocket 2) = some site ∧
    Arrives site.agent (site.receive ⟨1000000, 0⟩ journey.flight) ⟨257, numberedSocket 1⟩ 258
      (Address.ofSocket 0 (numberedSocket 9)) ⟨0, numberedSocket 9⟩ [4, 0] := by
  let hops := [numberedHop 1, numberedHop 2]
  have apart : (hops.map fun hop => hop.endpoint.socket).Nodup := by decide
  have built : Established (freshSites {} (numberedSocket 8) hops) (numberedSocket 8) hops :=
    established_freshSites apart (by decide)
  have veiled : Onion.Veiled 7 (Address.ofSocket 0 (numberedSocket 9)) [4, 0] (embryos (hops.take (reach 2 hops))) := by
    intro gone some few
    obtain rfl : gone = 1 := by
      have two : (embryos (hops.take (reach 2 hops))).length = 2 := by decide
      omega
    decide +kernel
  have small : ∀ layers, 0 < layers → layers < reach 2 hops → forwardedSize [4, 0] layers ≤ Datagram.largest := by
    intro layers _ few
    have two : reach 2 hops = 2 := by decide
    simp only [forwardedSize, RelayIds.size, Header.size, Cipher.tagSize, Datagram.largest, List.length_cons, List.length_nil]
    omega
  have last : hops[1]? = some (numberedHop 2) := rfl
  obtain ⟨datagram, journey, sent, reached, passed, _, there, arrives, _⟩ := encrypt_arrives_iff
    ⟨built, rfl, by decide, by decide, veiled, fun _ _ _ => hasRoom_of_freshSites (by decide), small, last,
      freshSites_at apart last, Or.inr ⟨rfl, by decide⟩⟩
    .outgoing [⟨1000000, 0⟩] (by decide) ⟨1000000, 0⟩
  refine ⟨datagram, journey, _, sent, reached, passed, there, arrives.mpr ?_⟩
  rintro ⟨_, connects, _⟩
  cases connects

/-- A relay may be told to open destinations for so long that it never sends a connection packet. -/
theorem not_encrypt_arrives : ¬ ∀ (sites : Sites) (client : SocketAddress) (hops : List Hop) (first exit : Hop)
    (depth : Int32) (salt : UInt32) (destination : Address) (content : Bytes) (site : Site) (target : Endpoint)
    (kind : CircuitKind) (moments : List Moment) (moment : Moment),
    Sendable sites client hops first exit depth salt destination content site target →
    site.agent.config.validate = .ok () → moments.length + 1 = reach depth hops →
    ∃ datagram journey,
      (CircuitKey.ofHops kind hops).encrypt salt depth destination content = .ok datagram ∧
      (Journey.start sites ⟨client, first.endpoint.socket, datagram⟩).follow? moments = some journey ∧
      Arrives site.agent (site.receive moment journey.flight) (origin client hops (reach depth hops - 1)) exit.outerId
        destination target content := by
  intro arrives
  let hop := numberedHop 1
  let limits : AgentLimits := { endpointRetention := 9223372036854775807 }
  let site : Site :=
    ⟨agentAt limits (numberedSocket 8) [hop] 0 hop, fun address => some ⟨address.relayId, address.socket⟩⟩
  have apart : ([hop].map fun hop => hop.endpoint.socket).Nodup := by decide
  have built : Established (freshSites limits (numberedSocket 8) [hop]) (numberedSocket 8) [hop] :=
    established_freshSites apart (by decide)
  have there : freshSites limits (numberedSocket 8) [hop] hop.endpoint.socket = some site := freshSites_at apart rfl
  have reachable : Reachable site (Address.ofSocket 0 (numberedSocket 9)) ⟨0, numberedSocket 9⟩ [1, 0] :=
    Or.inr ⟨rfl, by decide⟩
  have sendable : Sendable (freshSites limits (numberedSocket 8) [hop]) (numberedSocket 8) [hop] hop hop 1 7
      (Address.ofSocket 0 (numberedSocket 9)) [1, 0] site ⟨0, numberedSocket 9⟩ := by
    refine ⟨built, rfl, by decide, by decide, ?_, fun _ _ _ => hasRoom_of_freshSites (by decide), ?_, rfl, there, reachable⟩
    · intro gone some few
      have one : (embryos ([hop].take (reach 1 [hop]))).length = 1 := by decide
      omega
    · intro layers some few
      have one : reach 1 [hop] = 1 := by decide
      omega
  have valid : limits.validate = .ok () := by
    rw [AgentLimits.validate, if_neg (by decide), if_neg (by decide), if_neg (by decide), if_neg (by decide),
      if_neg (by decide)]
  obtain ⟨datagram, journey, sent, reached, away, _⟩ := arrives _ _ _ _ _ _ _ _ _ _ _ .outgoing [] ⟨1000000, 0⟩
    sendable valid (by decide)
  obtain ⟨known, exchange, found, hosts, _⟩ := built.hosted 0 hop rfl
  obtain rfl : known = site := Option.some.inj (found.symm.trans there)
  have packed : (CircuitKey.ofHops .outgoing [hop]).encrypt 7 1 (Address.ofSocket 0 (numberedSocket 9)) [1, 0] =
      .ok (outbound (numberedSocket 8) [hop] ([hop].take (reach 1 [hop])) 7 (Address.ofSocket 0 (numberedSocket 9)) [1, 0]
        0 hop).datagram :=
    encrypt_outbound rfl .outgoing (by decide) (by decide)
  cases packed.symm.trans sent
  cases reached
  have overflows : site.agent.Overflows [1, 0] 1000000 := ⟨by decide, by decide⟩
  obtain ⟨_, fails⟩ := exit_outbound 7 hosts (by decide) (hasRoom_of_freshSites (by decide) there) reachable ⟨1000000, 0⟩
  change (site.receive ⟨1000000, 0⟩ (outbound (numberedSocket 8) [hop] ([hop].take (reach 1 [hop])) 7
    (Address.ofSocket 0 (numberedSocket 9)) [1, 0] 0 hop)).value = _ at away
  rw [receive_outbound] at away
  have layers : embryos (([hop].take (reach 1 [hop])).drop 0) = [hop.link.embryo] := by decide
  rw [layers] at away
  cases away.symm.trans (fails ⟨rfl, overflows⟩)

end OnionCircuit.Circuit
