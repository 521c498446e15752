import OnionCircuit.Circuit.Key
import OnionCircuit.Proofs.Journey

/-! An answer comes back through a circuit. The outermost hop lets it in, every hop on the
way adds its layer, and the client takes all of them off again. -/

namespace OnionCircuit.Circuit

def inbound (client : SocketAddress) (hops : List Hop) (salt : UInt32) (sender : Address) (content : Bytes) (place : Nat)
    (hop : Hop) : Flight :=
  let target := origin client hops place
  ⟨hop.endpoint.socket, target.socket, Tag.wrapped hop.key ⟨hop.innerId, target.relayId⟩
    (Onion.pack (embryos (hops.drop place)) salt sender content)⟩

def entering (client : SocketAddress) (hops : List Hop) (sender : Endpoint) (content : Bytes) : Flight :=
  let target := origin client hops hops.length
  ⟨sender.socket, target.socket, (RelayIds.mk sender.relayId target.relayId).bytes ++ content⟩

/-- An answer that comes from the hop at a place, or from outside for the place behind the last hop. -/
inductive Returning (client : SocketAddress) (hops : List Hop) (salt : UInt32) (sender : Endpoint) (content : Bytes) :
    Nat → Flight → Prop
  | entering : Returning client hops salt sender content hops.length (entering client hops sender content)
  | passing {place : Nat} {hop : Hop} (here : hops[place]? = some hop) :
    Returning client hops salt sender content place (inbound client hops salt (Address.ofEndpoint sender) content place hop)

/-- The last hop is the outermost one, and lets an answer in. -/
def Admits (sites : Sites) (last : Hop) (sender : Endpoint) (content : Bytes) (now : Micros) : Prop :=
  ∀ site exchange, sites last.endpoint.socket = some site →
    site.agent.table.find? last.outerId = some (exchange, .inward) → exchange.outer = none ∧
    ∃ admitted, (site.agent.letIn exchange (Address.ofEndpoint sender) content now).2 = .ok (some admitted)

section
variable {sites : Sites} {client : SocketAddress} {hops : List Hop} {sender : Endpoint} {content : Bytes}

private theorem embryos_drop_self {place : Nat} {hop : Hop} (here : hops[place]? = some hop) :
    embryos (hops.drop place) = hop.link.embryo :: embryos (hops.drop (place + 1)) := by
  obtain ⟨inside, same⟩ := List.getElem?_eq_some_iff.mp here
  rw [List.drop_eq_getElem_cons inside, same]
  rfl

private theorem length_inbound {salt : UInt32} {address : Address} {place : Nat} {hop : Hop} :
    (inbound client hops salt address content place hop).datagram.length =
      forwardedSize content (hops.length - place) := by
  simp only [inbound, Tag.length_wrapped, Onion.length_pack, embryos, List.length_map, List.length_drop, forwardedSize]
  omega

variable (built : Established sites client hops)

include built in
/-- A hop on the way back tries to send on the answer with one more layer. -/
private theorem offers_inbound {flight : Flight} {place : Nat} {hop : Hop} {site : Site} {moment : Moment} {salt : UInt32}
    (here : hops[place]? = some hop) (there : sites hop.endpoint.socket = some site)
    (returning : Returning client hops salt sender content (place + 1) flight)
    (entrance : place + 1 = hops.length → moment.salt = salt ∧ Admits sites hop sender content moment.now) :
    flight.target = hop.endpoint.socket ∧
    site.agent.Offers (site.receive moment flight) ⟨(origin client hops place).socket,
      (inbound client hops salt (Address.ofEndpoint sender) content place hop).datagram⟩ := by
  obtain ⟨found, exchange, same, hosts, bound⟩ := built.hosted place hop here
  obtain rfl : found = site := Option.some.inj (same.symm.trans there)
  have named := (built.named hop (List.mem_of_getElem? here)).2
  have inner := hosts.ids.1
  have outermost := @origin_succ client hops place hop here
  generalize source : place + 1 = behind at returning
  cases returning with
  | entering =>
    obtain ⟨rfl, admits⟩ := entrance source
    obtain ⟨free, admitted, admits⟩ := admits found exchange there hosts.outer
    have offers := Agent.process_entering hosts.outer named found.resolve moment.salt ⟨sender.relayId, hop.outerId⟩
      moment.now free admits
    have beyond : embryos (hops.drop (place + 1)) = [] := by
      rw [List.drop_of_length_le (by omega)]
      rfl
    rw [hosts.client, hosts.key, hosts.embryo, inner] at offers
    rw [source] at outermost
    simp only [Circuit.entering, outermost, Site.receive, RelayIds.ofBytes_append, inbound, embryos_drop_self here, beyond]
    exact ⟨rfl, offers⟩
  | @passing place next there =>
    subst source
    have offers := Agent.process_inward hosts.outer named found.resolve moment.salt ⟨next.innerId, hop.outerId⟩ moment.now
      (bound next there) rfl (Onion.size_le_pack salt (Address.ofEndpoint sender) content (embryos (hops.drop (place + 1))))
    rw [hosts.client, hosts.key, hosts.embryo, inner, ← Onion.pack_cons, ← embryos_drop_self here] at offers
    simp only [Site.receive, inbound, outermost, Tag.ofBytes_wrapped]
    exact ⟨rfl, offers⟩

variable (room : ∀ hop ∈ hops, ∀ site, sites hop.endpoint.socket = some site → site.agent.HasRoom)

include built room in
private theorem inbound_step {journey : Journey} {place : Nat} {hop : Hop} {moment : Moment} {salt : UInt32}
    (here : hops[place]? = some hop) (kept : journey.sites hop.endpoint.socket = sites hop.endpoint.socket)
    (returning : Returning client hops salt sender content (place + 1) journey.flight)
    (entrance : place + 1 = hops.length → moment.salt = salt ∧ Admits sites hop sender content moment.now)
    (fits : forwardedSize content (hops.length - place) ≤ Datagram.largest) :
    ∃ site after packet, journey.advance? moment = some (journey.onward site after packet) ∧
      journey.flight.target = hop.endpoint.socket ∧ (journey.onward site after packet).flight =
        inbound client hops salt (Address.ofEndpoint sender) content place hop := by
  obtain ⟨site, _, there, _, _⟩ := built.hosted place hop here
  obtain ⟨target, offers⟩ := offers_inbound built here there returning entrance
  have present : journey.sites journey.flight.target = some site := by rw [target, kept, there]
  have sends := offers.sends (by rwa [length_inbound]) (room hop (List.mem_of_getElem? here) site there)
  refine ⟨site, _, _, Journey.advance?_of_sends present sends, target, ?_⟩
  simp only [Journey.onward, target]
  rfl

variable {last : Hop} (ends : hops.getLast? = some last) {moment : Moment} {later : List Moment}
  (admits : Admits sites last sender content moment.now)

include ends admits in
private theorem entrance_at {steps : Nat} (hop : Hop) {current : Moment} (few : steps + 1 ≤ hops.length)
    (now : (moment :: later)[steps]? = some current) (here : hops[hops.length - (steps + 1)]? = some hop)
    (outside : hops.length - (steps + 1) + 1 = hops.length) :
    current.salt = moment.salt ∧ Admits sites hop sender content current.now := by
  obtain rfl : steps = 0 := by omega
  cases now
  rw [List.getLast?_eq_getElem?, here] at ends
  cases ends
  exact ⟨rfl, admits⟩

include built room ends admits in
/-- As long as the answer fits, it has passed the hops behind a place after as many moments as there are such hops. -/
private theorem inbound_follow (steps : Nat) (few : steps ≤ hops.length) (timed : steps ≤ (moment :: later).length)
    (fits : ∀ layers, 0 < layers → layers ≤ steps → forwardedSize content layers ≤ Datagram.largest) :
    ∃ journey,
      (Journey.start sites (entering client hops sender content)).follow? ((moment :: later).take steps) = some journey ∧
      Returning client hops moment.salt sender content (hops.length - steps) journey.flight ∧
      journey.passed = ((hops.drop (hops.length - steps)).map fun hop => hop.endpoint.socket).reverse ∧
      ∀ earlier other, earlier + steps < hops.length → hops[earlier]? = some other →
        journey.sites other.endpoint.socket = sites other.endpoint.socket := by
  induction steps with
  | zero =>
    refine ⟨_, rfl, .entering, ?_, fun _ _ _ _ => rfl⟩
    simp only [Nat.sub_zero, List.drop_length]
    rfl
  | succ steps ih =>
    obtain ⟨journey, reached, returning, passed, kept⟩ := ih (by omega) (by omega) fun layers some few =>
      fits layers some (by omega)
    have here : hops[hops.length - (steps + 1)]? = some hops[hops.length - (steps + 1)] :=
      List.getElem?_eq_getElem (by omega)
    have now : (moment :: later)[steps]? = some (moment :: later)[steps] := List.getElem?_eq_getElem (by omega)
    have before : hops.length - steps = hops.length - (steps + 1) + 1 := by omega
    have layers : hops.length - (hops.length - (steps + 1)) = steps + 1 := by omega
    rw [before] at returning
    obtain ⟨site, after, packet, advances, target, next⟩ := inbound_step built room here (kept _ _ (by omega) here)
      returning (entrance_at ends admits _ few now here) (by rw [layers]; exact fits _ (by omega) (Nat.le_refl _))
    refine ⟨_, (Journey.follow?_take_succ reached now).trans advances, ?_, ?_, ?_⟩
    · rw [next]
      exact .passing here
    · have more := List.drop_eq_getElem_cons (show hops.length - (steps + 1) < hops.length by omega)
      simp only [Journey.onward, passed, target, more, List.map_cons, List.reverse_cons, before]
    · intro earlier other inside found
      have different : other.endpoint.socket ≠ journey.flight.target := by
        rw [target]
        exact apart_at built.apart found here (by omega)
      rw [Journey.sites_onward different]
      exact kept earlier other (by omega) found

include built ends admits room in
/-- The first hop at which the answer has become too large drops it. -/
private theorem inbound_dropped {place : Nat} {hop : Hop} (here : hops[place]? = some hop)
    (timed : hops.length ≤ (moment :: later).length)
    (large : Datagram.largest < forwardedSize content (hops.length - place))
    (fits : ∀ layers, 0 < layers → layers < hops.length - place → forwardedSize content layers ≤ Datagram.largest) :
    ∃ journey site current, (Journey.start sites (entering client hops sender content)).follow?
        ((moment :: later).take (hops.length - (place + 1))) = some journey ∧
      journey.passed = ((hops.drop (place + 1)).map fun hop => hop.endpoint.socket).reverse ∧
      journey.flight.target = hop.endpoint.socket ∧ journey.sites hop.endpoint.socket = some site ∧
      (moment :: later)[hops.length - (place + 1)]? = some current ∧
      (site.receive current journey.flight).value = .ok (.dropped .tooLarge) := by
  obtain ⟨inside, _⟩ := List.getElem?_eq_some_iff.mp here
  have enough : hops.length - (place + 1) ≤ (moment :: later).length := by omega
  obtain ⟨journey, reached, returning, passed, kept⟩ := inbound_follow built room ends admits (hops.length - (place + 1))
    (by omega) enough fun layers some few => fits layers some (by omega)
  obtain ⟨site, _, there, _, _⟩ := built.hosted place hop here
  have now : (moment :: later)[hops.length - (place + 1)]? = some (moment :: later)[hops.length - (place + 1)] :=
    List.getElem?_eq_getElem (by omega)
  have behind : hops.length - (hops.length - (place + 1)) = place + 1 := by omega
  have same : hops.length - (hops.length - (place + 1) + 1) = place := by omega
  have entrance := entrance_at ends admits hop (show hops.length - (place + 1) + 1 ≤ hops.length by omega) now
  rw [same] at entrance
  rw [behind] at returning passed
  obtain ⟨target, offers⟩ := offers_inbound built here there returning (entrance here)
  refine ⟨journey, site, _, reached, passed, target, ?_, now, ?_⟩
  · rw [kept place hop (by omega) here, there]
  · exact (offers.tooLarge (by rwa [length_inbound])).1

private theorem forwardedSize_mono {fewer layers : Nat} (less : fewer ≤ layers) :
    forwardedSize content fewer ≤ forwardedSize content layers := by
  simp only [forwardedSize, Cipher.tagSize]
  omega

private theorem first_too_large {count : Nat} (some : 0 < count) (large : Datagram.largest < forwardedSize content count) :
    ∃ layers, 0 < layers ∧ layers ≤ count ∧ Datagram.largest < forwardedSize content layers ∧
      ∀ fewer, 0 < fewer → fewer < layers → forwardedSize content fewer ≤ Datagram.largest := by
  induction count with
  | zero => contradiction
  | succ count ih =>
    by_cases fits : count = 0 ∨ forwardedSize content count ≤ Datagram.largest
    · refine ⟨count + 1, some, Nat.le_refl _, large, ?_⟩
      intro fewer positive less
      obtain none | fits := fits
      · omega
      · exact Nat.le_trans (forwardedSize_mono (by omega)) fits
    · obtain ⟨layers, positive, less, first⟩ := ih (by omega) (by omega)
      exact ⟨layers, positive, by omega, first⟩

private theorem decrypt_inbound {first : Hop} (start : hops.head? = some first) (kind : CircuitKind) (salt : UInt32)
    (veiled : Onion.Veiled salt (Address.ofEndpoint sender) content (embryos hops))
    (fits : forwardedSize content hops.length ≤ Datagram.largest) :
    (CircuitKey.ofHops kind hops).decrypt? first.endpoint
        (inbound client hops salt (Address.ofEndpoint sender) content 0 first).datagram =
      some ⟨Address.ofEndpoint sender, match kind with | .outgoing => hops.length | .incoming => -hops.length, content⟩ := by
  have key : (CircuitKey.ofHops kind hops).first = some (first.endpoint, first.key) := by
    simp only [CircuitKey.ofHops, start, Option.map_some]
  have covered : embryos hops ≠ [] := by
    intro none
    rw [List.map_eq_nil_iff.mp none] at start
    cases start
  have opened := Onion.peel_pack veiled covered 0
  have few : ¬ 2147483648 ≤ 0 + (embryos hops).length := by
    simp only [forwardedSize, Cipher.tagSize, Datagram.largest, RelayIds.size, Header.size] at fits
    simp only [embryos, List.length_map]
    omega
  have layers : (CircuitKey.ofHops kind hops).layers = embryos hops := rfl
  simp only [CircuitKey.decrypt?, key, ne_eq, not_true_eq_false, if_false, inbound, List.drop_zero,
    Tag.unwrap_wrapped (Onion.salted_pack _ _ _ _), Except.toOption, bind, Option.bind, Onion.unpack, layers, opened, few]
  have depth : 0 + (embryos hops).length = hops.length := by rw [Nat.zero_add, embryos, List.length_map]
  rw [depth]
  rfl


private theorem returning_first {first : Hop} (start : hops.head? = some first) {salt : UInt32} {flight : Flight}
    (returning : Returning client hops salt sender content 0 flight) :
    flight = inbound client hops salt (Address.ofEndpoint sender) content 0 first := by
  generalize front : 0 = place at returning
  cases returning with
  | entering =>
    rw [List.length_eq_zero_iff.mp front.symm] at start
    cases start
  | @passing _ hop here =>
    subst front
    rw [List.head?_eq_getElem?, here] at start
    cases start
    rfl

include built room ends admits in
private theorem inbound_arrives {first : Hop} (start : hops.head? = some first)
    (timed : (moment :: later).length = hops.length) (fits : forwardedSize content hops.length ≤ Datagram.largest) :
    ∃ journey, (Journey.start sites (entering client hops sender content)).follow? (moment :: later) = some journey ∧
      journey.passed = (hops.map fun hop => hop.endpoint.socket).reverse ∧
      journey.flight = inbound client hops moment.salt (Address.ofEndpoint sender) content 0 first := by
  have total : hops.length ≤ (moment :: later).length := by omega
  obtain ⟨journey, reached, returning, passed, _⟩ := inbound_follow built room ends admits hops.length (Nat.le_refl _) total
    fun layers _ less => Nat.le_trans (forwardedSize_mono less) fits
  rw [List.take_of_length_le (by omega)] at reached
  rw [Nat.sub_self] at returning passed
  exact ⟨journey, reached, passed, returning_first start returning⟩

structure DroppedAt (start : Journey) (hops : List Hop) (content : Bytes) (moments : List Moment) (place : Nat) (hop : Hop) :
    Prop where
  here : hops[place]? = some hop
  large : Datagram.largest < forwardedSize content (hops.length - place)
  first : ∀ layers, 0 < layers → layers < hops.length - place → forwardedSize content layers ≤ Datagram.largest
  dropped : ∃ journey site current,
    start.follow? (moments.take (hops.length - (place + 1))) = some journey ∧
    journey.passed = ((hops.drop (place + 1)).map fun hop => hop.endpoint.socket).reverse ∧
    journey.flight.target = hop.endpoint.socket ∧ journey.sites hop.endpoint.socket = some site ∧
    moments[hops.length - (place + 1)]? = some current ∧
    (site.receive current journey.flight).value = .ok (.dropped .tooLarge)

private theorem DroppedAt.ended {start : Journey} {moments : List Moment} {place : Nat} {hop : Hop}
    (here : DroppedAt start hops content moments place hop) : start.follow? moments = none := by
  obtain ⟨journey, site, current, before, _, target, there, now, dropped⟩ := here.dropped
  have present : journey.sites journey.flight.target = some site := by rw [target, there]
  exact Journey.follow?_of_take ((Journey.follow?_take_succ before now).trans (Journey.advance?_of_dropped present dropped))

include built room ends admits in
/-- An answer that does not fit under all layers is dropped by the first hop at which it does not. -/
private theorem inbound_drops (timed : (moment :: later).length = hops.length)
    (large : Datagram.largest < forwardedSize content hops.length) :
    ∃ place hop, DroppedAt (Journey.start sites (entering client hops sender content)) hops content (moment :: later)
      place hop := by
  have total : hops.length ≤ (moment :: later).length := by omega
  have some : 0 < hops.length := by
    rw [← timed, List.length_cons]
    omega
  obtain ⟨layers, positive, less, heavy, light⟩ := first_too_large some large
  have behind : hops.length - (hops.length - layers) = layers := by omega
  have here : hops[hops.length - layers]? = .some hops[hops.length - layers] := List.getElem?_eq_getElem (by omega)
  rw [← behind] at heavy light
  exact ⟨_, _, here, heavy, light, inbound_dropped built room ends admits here total heavy light⟩

end

/-- What an answer needs on its way from outside to the client, sizes aside. -/
structure Answerable (sites : Sites) (client : SocketAddress) (hops : List Hop) (first last : Hop) (sender : Endpoint)
    (content : Bytes) (now : Micros) : Prop where
  built : Established sites client hops
  room : ∀ hop ∈ hops, ∀ site, sites hop.endpoint.socket = some site → site.agent.HasRoom
  start : hops.head? = some first
  ends : hops.getLast? = some last
  admits : Admits sites last sender content now

/-- An answer that the last hop lets in passes all hops and reaches the client exactly if it fits under all layers, and
the client reads who sent what from how far. Else the first hop that makes it too large drops it. -/
theorem answer_returns_iff {sites : Sites} {client : SocketAddress} {hops : List Hop} {first last : Hop} {sender : Endpoint}
    {content : Bytes} (moment : Moment) (answerable : Answerable sites client hops first last sender content moment.now)
    (kind : CircuitKind) (later : List Moment) (timed : (moment :: later).length = hops.length) :
    let start := Journey.start sites
      ⟨sender.socket, last.endpoint.socket, (RelayIds.mk sender.relayId last.outerId).bytes ++ content⟩
    ((∃ journey, start.follow? (moment :: later) = some journey) ↔ forwardedSize content hops.length ≤ Datagram.largest) ∧
    (∀ journey, start.follow? (moment :: later) = some journey →
      journey.passed = (hops.map fun hop => hop.endpoint.socket).reverse ∧
      journey.flight.target = client ∧ journey.flight.sender = first.endpoint.socket ∧
      (Onion.Veiled moment.salt (Address.ofEndpoint sender) content (embryos hops) →
        (CircuitKey.ofHops kind hops).decrypt? ⟨first.innerId, journey.flight.sender⟩ journey.flight.datagram =
          some ⟨Address.ofEndpoint sender, match kind with | .outgoing => hops.length | .incoming => -hops.length,
            content⟩)) ∧
    (Datagram.largest < forwardedSize content hops.length →
      ∃ place hop, DroppedAt start hops content (moment :: later) place hop) := by
  obtain ⟨built, room, start, ends, admits⟩ := answerable
  have entry : entering client hops sender content =
      ⟨sender.socket, last.endpoint.socket, (RelayIds.mk sender.relayId last.outerId).bytes ++ content⟩ := by
    have outermost := @origin_succ client hops (hops.length - 1) last (by rw [← List.getLast?_eq_getElem?, ends])
    rw [Nat.sub_add_cancel (by rw [← timed, List.length_cons]; omega)] at outermost
    simp only [entering, outermost]
    rfl
  rw [← entry]
  intro beginning
  have drops := inbound_drops built room ends admits timed
  refine ⟨⟨?_, ?_⟩, ?_, drops⟩
  · rintro ⟨journey, reached⟩
    by_cases fits : forwardedSize content hops.length ≤ Datagram.largest
    · exact fits
    · obtain ⟨place, hop, dropped⟩ := drops (by omega)
      cases dropped.ended.symm.trans reached
  · intro fits
    obtain ⟨journey, reached, _⟩ := inbound_arrives built room ends admits start timed fits
    exact ⟨journey, reached⟩
  · intro journey reached
    by_cases fits : forwardedSize content hops.length ≤ Datagram.largest
    · obtain ⟨arrived, same, passed, flight⟩ := inbound_arrives built room ends admits start timed fits
      cases same.symm.trans reached
      rw [flight]
      exact ⟨passed, rfl, rfl, fun veiled => decrypt_inbound start kind moment.salt veiled fits⟩
    · obtain ⟨place, hop, dropped⟩ := drops (by omega)
      cases dropped.ended.symm.trans reached

theorem answer_returns_pair : ∃ journey,
    (Journey.start (freshSites {} (numberedSocket 8) [numberedHop 1, numberedHop 2])
      ⟨numberedSocket 9, numberedSocket 2, (RelayIds.mk 0 258).bytes ++ [4, 0, 5]⟩).follow? [⟨2000000, 7⟩, ⟨2000000, 0⟩] =
        some journey ∧
    journey.passed = [numberedSocket 2, numberedSocket 1] ∧ journey.flight.target = numberedSocket 8 ∧
    (CircuitKey.ofHops .outgoing [numberedHop 1, numberedHop 2]).decrypt? ⟨1, journey.flight.sender⟩
      journey.flight.datagram = some ⟨Address.ofSocket 0 (numberedSocket 9), 2, [4, 0, 5]⟩ := by
  let hops := [numberedHop 1, numberedHop 2]
  have apart : (hops.map fun hop => hop.endpoint.socket).Nodup := by decide
  have built : Established (freshSites {} (numberedSocket 8) hops) (numberedSocket 8) hops :=
    established_freshSites apart (by decide)
  have admits : Admits (freshSites {} (numberedSocket 8) hops) (numberedHop 2) ⟨0, numberedSocket 9⟩ [4, 0, 5] 2000000 := by
    intro site exchange found outer
    have last : hops[1]? = some (numberedHop 2) := rfl
    rw [freshSites_at apart last] at found
    cases found
    have hosts : Hosts (agentAt {} (numberedSocket 8) hops 1 (numberedHop 2)) _ _ _ := hosts_agentAt (by decide)
    cases outer.symm.trans hosts.outer
    refine ⟨rfl, { exchangeAt {} (numberedSocket 8) hops 1 (numberedHop 2) with lastAdmitted := 2000000 }, ?_⟩
    rw [Agent.letIn_unknown _ rfl (by decide)]
    exact Agent.admitUnknown?_eq rfl (if_pos (by decide)) (by decide)
  have veiled : Onion.Veiled 7 (Address.ofEndpoint ⟨0, numberedSocket 9⟩) [4, 0, 5] (embryos hops) := by
    intro gone some few
    have two : (embryos hops).length = 2 := rfl
    obtain rfl : gone = 1 := by omega
    decide +kernel
  have fits : forwardedSize [4, 0, 5] hops.length ≤ Datagram.largest := by decide
  obtain ⟨arrives, reads, _⟩ := answer_returns_iff ⟨2000000, 7⟩
    ⟨built, fun _ _ _ => hasRoom_of_freshSites (by decide), rfl, rfl, admits⟩ .outgoing [⟨2000000, 0⟩] rfl
  obtain ⟨journey, reached⟩ := arrives.mpr fits
  obtain ⟨passed, target, _, read⟩ := reads journey reached
  exact ⟨journey, reached, passed, target, read veiled⟩

end OnionCircuit.Circuit
