import OnionCircuit.Proofs.ExchangeLife

/-! What the exchanges may spend, and on what. -/

namespace OnionCircuit

def Accepted.reprice (points : Int64) (accepted : Accepted) : Accepted :=
  ⟨accepted.exchange.reprice points, accepted.passage⟩

theorem ExchangeTable.Sound.find?_reprice {table : ExchangeTable} (sound : table.Sound) {relayId : RelayId}
    {exchange : Exchange} {direction : Direction} (found : table.find? relayId = some (exchange, direction))
    (points : Int64) :
    (table.replace (exchange.reprice points)).find? relayId = some (exchange.reprice points, direction) := by
  obtain ⟨present, rfl⟩ := mem_of_find? found
  have newer : (table.replace (exchange.reprice points)).Sound := sound.replace present rfl rfl
  have held : exchange.reprice points ∈ (table.replace (exchange.reprice points)).exchanges :=
    List.mem_map.mpr ⟨exchange, present, if_pos rfl⟩
  cases direction with
  | outward => exact newer.find?_inner held
  | inward => exact newer.find?_outer held

namespace Agent

section
variable {agent : Agent} {table : ExchangeTable} {exchange : Exchange} {points : Int64}

private theorem admitUnknown?_reprice (exchange : Exchange) (points : Int64) (now : Micros) :
    (exchange.reprice points).admitUnknown? now = (exchange.admitUnknown? now).map (Option.map (·.reprice points)) := by
  unfold Exchange.admitUnknown?
  by_cases allows : exchange.allowUnknown = true
  · rw [if_pos allows, if_pos (c := (exchange.reprice points).allowUnknown = true) allows]
    change (Checked.sub now exchange.lastAdmitted >>= _) = _
    cases Checked.sub now exchange.lastAdmitted with
    | error fault => rfl
    | ok passed =>
      by_cases early : passed < exchange.restrictedInterval
      · simp only [bind, Except.bind, Exchange.reprice, early, if_true]
        rfl
      · simp only [bind, Except.bind, Exchange.reprice, early, if_false]
        rfl
  · rw [if_neg allows, if_neg (c := (exchange.reprice points).allowUnknown = true) allows]
    rfl

theorem letIn_repriced (sender : Address) (content : Bytes) (now : Micros) :
    (agent.onTable table).letIn (exchange.reprice points) sender content now =
      ((agent.letIn exchange sender content now).1.onTable table,
        (agent.letIn exchange sender content now).2.map (Option.map (·.reprice points))) := by
  have kind : (exchange.reprice points).allowOpenSesami = exchange.allowOpenSesami := rfl
  unfold letIn
  by_cases passes : ((agent.cache.isUnrestricted sender now).2 ||
    exchange.allowOpenSesami && ContentKind.ofContent? content == some .openSesami) = true
  · simp only [onTable, kind, passes, if_true]
    rfl
  · simp only [onTable, kind, passes, Bool.false_eq_true, if_false, admitUnknown?_reprice]

/-- Charging leaves an agent as it is but for its exchanges. -/
private theorem charge_repriced (agent : Agent) (table : ExchangeTable) (one two : Exchange) (now : Micros) :
    ∃ other, ((agent.onTable table).charge two now).agent = (agent.charge one now).agent.onTable other := by
  have charges (agent : Agent) (exchange : Exchange) : ∃ table, (agent.charge exchange now).agent = agent.onTable table := by
    unfold charge
    split <;> exact ⟨_, rfl⟩
  obtain ⟨other, same⟩ := charges (agent.onTable table) two
  obtain ⟨_, before⟩ := charges agent one
  exact ⟨other, by rw [same, before]; rfl⟩

theorem screen_repriced {relayId : RelayId} {direction : Direction}
    (found : agent.table.find? relayId = some (exchange, direction))
    (also : table.find? relayId = some (exchange.reprice points, direction)) (sender : Endpoint) (content : Bytes)
    (now : Micros) :
    let before := agent.screen sender relayId content now
    let after := (agent.onTable table).screen sender relayId content now
    (∃ other, after.agent = before.agent.onTable other) ∧
    after.value = before.value.map (Except.map (Accepted.reprice points)) := by
  -- The checks read an exchange but for its points; a charge reads these, and changes nothing but the table.
  have again : (agent.onTable table).table.find? relayId = some (exchange.reprice points, direction) := also
  simp only [screen, found, again, Exchange.reprice_link, Exchange.reprice_outer]
  cases direction with
  | outward =>
    by_cases client : sender = exchange.link.endpoint
    · simp only [client, if_true]
      exact ⟨charge_repriced _ _ _ _ _, rfl⟩
    · simp only [client, if_false]
      exact ⟨⟨table, rfl⟩, rfl⟩
  | inward =>
    cases bound : exchange.outer with
    | some next =>
      simp only
      split
      · exact ⟨⟨table, rfl⟩, rfl⟩
      · split
        · exact ⟨charge_repriced _ _ _ _ _, rfl⟩
        · split
          · exact ⟨charge_repriced _ _ _ _ _, rfl⟩
          · exact ⟨⟨table, rfl⟩, rfl⟩
    | none =>
      simp only [letIn_repriced]
      generalize agent.letIn exchange (Address.ofEndpoint sender) content now = judged
      obtain ⟨guarded, fault | _ | admitted⟩ := judged
      · exact ⟨⟨table, rfl⟩, rfl⟩
      · exact ⟨⟨table, rfl⟩, rfl⟩
      · exact ⟨charge_repriced _ _ _ _ _, rfl⟩

/-- What becomes of a packet does not depend on what its exchange has left. -/
theorem process_repriced {relayId : RelayId} {direction : Direction}
    (found : agent.table.find? relayId = some (exchange, direction))
    (also : table.find? relayId = some (exchange.reprice points, direction)) (resolve : Resolver) (salt : UInt32)
    (sender : Endpoint) (datagram : Bytes) (now : Micros) :
    let before := agent.process resolve salt sender relayId datagram now
    let after := (agent.onTable table).process resolve salt sender relayId datagram now
    after.value = before.value ∧ ∃ other, after.agent = before.agent.onTable other := by
  have screened := screen_repriced found also sender (datagram.drop RelayIds.size) now
  simp only at screened
  obtain ⟨⟨other, agents⟩, values⟩ := screened
  simp only [process]
  split
  · exact ⟨rfl, table, rfl⟩
  · split
    · exact ⟨rfl, table, rfl⟩
    · cases judged : (agent.screen sender relayId (datagram.drop RelayIds.size) now).value with
      | error fault =>
        simp only [values, judged, Except.map]
        exact ⟨trivial, other, agents⟩
      | ok answer =>
        cases answer with
        | error reason =>
          simp only [values, judged, Except.map]
          exact ⟨trivial, other, agents⟩
        | ok accepted =>
          simp only [values, judged, Except.map, agents, Accepted.reprice, pass_reprice, pass_onTable]
          exact ⟨rfl, other, rfl⟩

end

/-- The same agent, but the exchange that has an id has other points. -/
def reprice (agent : Agent) (relayId : RelayId) (points : Int64) : Agent :=
  match agent.table.get? relayId with
  | some exchange => agent.onTable (agent.table.replace (exchange.reprice points))
  | none => agent

/-- The id whose exchange an operation asks for a point. -/
def asks? (agent : Agent) : Operation → Option RelayId
  | .decrement relayId _ => some relayId
  | .process _ _ sender relayId datagram now => if agent.passes sender relayId datagram now then some relayId else none
  | _ => none

/-- Whether an operation removes the exchange with some ids whatever it has left. -/
def Dismisses (agent : Agent) (relayIds : List RelayId) : Operation → Prop
  | .remove relayId => relayId ∈ relayIds
  | .clean isClosed now =>
    ∃ gone, agent.table.expired isClosed now = .ok gone ∧ ∃ exchange ∈ gone, exchange.innerId ∈ relayIds
  | _ => False

section
variable {agent : Agent} {standing : Standing} {limit : Int} {relayId : RelayId} {packet : Bool}

private theorem ends_charged (lawful : (Posting.charged relayId packet).Lawful limit standing) :
    (Posting.charged relayId packet).ends standing.ids = true ↔
      (∃ asked ∈ standing.ids, some relayId = some asked) ∧ standing.points = 0 := by
  constructor
  · exact fun gone => nomatch gone
  · rintro ⟨⟨asked, own, same⟩, broke⟩
    cases same
    exact absurd broke (Int.ne_of_gt (lawful own))

private theorem ends_exhausted (lawful : (Posting.exhausted relayId packet).Lawful limit standing) :
    (Posting.exhausted relayId packet).ends standing.ids = true ↔
      (∃ asked ∈ standing.ids, some relayId = some asked) ∧ standing.points = 0 := by
  constructor
  · intro gone
    have own := of_decide_eq_true gone
    exact ⟨⟨relayId, own, rfl⟩, lawful own⟩
  · rintro ⟨⟨asked, own, same⟩, _⟩
    cases same
    exact decide_eq_true own

/-- An exchange is gone if it was removed, or a point was asked for where there was none. -/
theorem ends_iff (solvent : agent.Solvent) (operation : Operation) (member : standing ∈ agent.table.standings) :
    (agent.posting operation).ends standing.ids = true ↔
      (∃ asked ∈ standing.ids, agent.asks? operation = some asked) ∧ standing.points = 0 ∨
        agent.Dismisses standing.ids operation := by
  have lawful := (solvent.settles operation).lawful standing member
  cases operation with
  | decrement relayId now =>
    simp only [posting_decrement, asks?, Dismisses, or_false] at lawful ⊢
    split
    next paid =>
      rw [if_pos paid] at lawful
      exact ends_charged lawful
    next broke =>
      rw [if_neg broke] at lawful
      exact ends_exhausted lawful
  | process resolve salt sender relayId datagram now =>
    simp only [posting_process, asks?, Dismisses, or_false] at lawful ⊢
    by_cases passes : agent.passes sender relayId datagram now = true
    · simp only [passes, if_true] at lawful ⊢
      split
      next broke =>
        rw [if_pos broke] at lawful
        exact ends_exhausted lawful
      next paid =>
        rw [if_neg paid] at lawful
        exact ends_charged lawful
    · simp only [passes, Bool.false_eq_true, if_false, reduceCtorEq, and_false, exists_false, false_and, iff_false]
      exact Bool.false_ne_true
  | remove relayId =>
    simp only [posting_remove, Posting.ends, asks?, Dismisses, reduceCtorEq, and_false, exists_false, false_and, false_or,
      List.mem_singleton, exists_eq_left, decide_eq_true_eq]
  | clean isClosed now =>
    simp only [posting_clean, asks?, Dismisses, reduceCtorEq, and_false, exists_false, false_and, false_or]
    cases expired : agent.table.expired isClosed now with
    | error fault =>
      simp only [Posting.ends, Bool.false_eq_true, reduceCtorEq, false_and, exists_false]
    | ok gone =>
      simp only [Posting.ends, Except.ok.injEq, exists_eq_left', decide_eq_true_eq, List.mem_map, exists_exists_and_eq_and]
  | add link block now words =>
    simp only [posting_add, asks?, Dismisses, reduceCtorEq, and_false, exists_false, false_and, or_false, iff_false]
    split <;> exact Bool.false_ne_true
  | credit relayId points =>
    simp only [posting_credit, asks?, Dismisses, reduceCtorEq, and_false, exists_false, false_and, or_false, iff_false]
    split <;> exact Bool.false_ne_true
  | _ =>
    simp only [asks?, Dismisses, reduceCtorEq, and_false, exists_false, false_and, or_false, iff_false]
    exact Bool.false_ne_true

end
end Agent

namespace Book
variable {config : AgentConfig} {book : Book} {relayId : RelayId}

private theorem Balanced.get? (balanced : book.Balanced config) {account : Account} (member : account ∈ book.ledger.live)
    (own : relayId ∈ account.ids) : ∃ exchange, book.agent.table.get? relayId = some exchange ∧
      exchange.standing = account.standing config.defaultPoints.toInt := by
  obtain ⟨direction, rfl⟩ : ∃ direction, relayId = account.idFor direction := by
    rcases List.mem_cons.mp own with inner | rest
    · exact ⟨.outward, inner⟩
    · exact ⟨.inward, List.mem_singleton.mp rest⟩
  obtain ⟨exchange, found, same⟩ := balanced.find? member direction
  exact ⟨exchange, by rw [ExchangeTable.get?, found]; rfl, same⟩

private theorem Balanced.addPoints (balanced : book.Balanced config) (relayId : RelayId) (amount : Int64) :
    ∃ richer credited, book.agent.addPoints relayId amount = .ok (richer, credited) ∧
      credited.toInt = match book.agent.points? relayId with
        | some points => max 0 (min amount.toInt (config.maxPoints.toInt - points.toInt))
        | none => 0 := by
  unfold Agent.addPoints Agent.points?
  cases got : book.agent.table.get? relayId with
  | none => exact ⟨_, _, rfl, rfl⟩
  | some exchange =>
    have present := (ExchangeTable.owned_of_get? got).1
    obtain ⟨richer, credited, credits, granted, _⟩ := Exchange.credit_eq (balanced.solvent.funded exchange present) amount
    refine ⟨{ book.agent with table := book.agent.table.replace richer }, credited, ?_, ?_⟩
    · simp only [credits, bind, Except.bind, pure, Except.pure]
    · rw [granted, balanced.limits]
      rfl

private theorem Balanced.process_reprice (balanced : book.Balanced config) (relayId : RelayId) (points : Int64)
    (resolve : Resolver) (salt : UInt32) (sender : Endpoint) (datagram : Bytes) (now : Micros) :
    let done := book.agent.process resolve salt sender relayId datagram now
    let repriced := (book.agent.reprice relayId points).process resolve salt sender relayId datagram now
    repriced.value = done.value ∧ ∃ table, repriced.agent = done.agent.onTable table := by
  unfold Agent.reprice
  cases got : book.agent.table.get? relayId with
  | none => exact ⟨rfl, _, rfl⟩
  | some exchange =>
    obtain ⟨⟨owner, direction⟩, found, same⟩ := Option.map_eq_some_iff.mp got
    cases same
    have also := balanced.solvent.sound.find?_reprice found points
    exact Agent.process_repriced found also resolve salt sender datagram now

/-- What an exchange has left is what it had at first and was credited, less a point for each time it was charged. It is
gone once a point is asked for and none is left, and that is no reason to drop the packet that asked. -/
theorem points_conserved (valid : config.validate = .ok ()) (operations : List Operation) :
    let book := (start config).run operations
    let agent := book.agent
    let ledger := book.ledger
    (∀ account ∈ ledger.live, ∀ relayId ∈ account.ids, ∃ points, agent.points? relayId = some points ∧
      points.toInt = config.defaultPoints.toInt + account.credited - account.charges ∧
      0 ≤ points.toInt ∧ points.toInt ≤ config.maxPoints.toInt) ∧
    (∀ relayId amount, ∃ richer credited, agent.addPoints relayId amount = .ok (richer, credited) ∧
      credited.toInt = match agent.points? relayId with
        | some points => max 0 (min amount.toInt (config.maxPoints.toInt - points.toInt))
        | none => 0) ∧
    (∀ operation, ∀ account ∈ ledger.live, ∀ relayId ∈ account.ids,
      (agent.after operation).contains relayId = false ↔
        (∃ asked ∈ account.ids, agent.asks? operation = some asked) ∧
          config.defaultPoints.toInt + account.credited - account.charges = 0 ∨
        agent.Dismisses account.ids operation) ∧
    (∀ relayId points resolve salt sender datagram now,
      let done := agent.process resolve salt sender relayId datagram now
      let repriced := (agent.reprice relayId points).process resolve salt sender relayId datagram now
      repriced.value = done.value ∧ ∃ table, repriced.agent = done.agent.onTable table) ∧
    ∀ account ∈ ledger.live ++ ledger.closed,
      (account.packets : Int) ≤ config.defaultPoints.toInt + account.credited + 1 := by
  intro book agent ledger
  have balanced : book.Balanced config := run_balanced valid operations
  refine ⟨?_, balanced.addPoints, ?_, balanced.process_reprice, ?_⟩
  · intro account member relayId own
    obtain ⟨exchange, got, same⟩ := balanced.get? member own
    have funded := (balanced.funded member).2
    have left : exchange.points.toInt = account.balance config.defaultPoints.toInt := congrArg Standing.points same
    refine ⟨exchange.points, by rw [Agent.points?, got]; rfl, left, ?_⟩
    rwa [left]
  · intro operation account member relayId own
    rw [balanced.unknown_iff_ends valid member own operation]
    exact Agent.ends_iff balanced.solvent operation (balanced.funded member).1
  · intro account member
    rcases List.mem_append.mp member with live | closed
    · have paid := balanced.paid account live
      have least := (balanced.funded live).2.1
      rw [Account.balance] at least
      omega
    · exact balanced.spent account closed

/-- Of five points two are credited, which makes three. The fourth packet finds none left, and the exchange is gone. -/
theorem points_conserved_spent :
    let config : AgentConfig := { defaultPoints := 1, maxPoints := 3 }
    let packet : Operation := .process (fun _ => none) 0 (Circuit.numberedHop 1).link.endpoint 1 (List.replicate 8 0) 0
    let book := (start config).run [numberedAdd 1 [1, 2], .credit 2 5, packet, packet, packet]
    book.agent.points? 1 = some 0 ∧
    (book.agent.after packet).contains 1 = false ∧
    (book.record packet).ledger = ⟨[], [⟨1, 2, 2, 3, 4⟩], [1, 2]⟩ := by
  intro config packet book
  have valid : config.validate = .ok () := rfl
  obtain ⟨left, _, gone, _⟩ := points_conserved valid [numberedAdd 1 [1, 2], .credit 2 5, packet, packet, packet]
  have live : ⟨1, 2, 2, 3, 3⟩ ∈ book.ledger.live := by decide
  obtain ⟨points, known, none_left, _⟩ := left _ live 1 List.mem_cons_self
  obtain rfl : points = 0 := Int64.toInt_inj.mp none_left
  refine ⟨known, ?_, by decide⟩
  have asks : book.agent.asks? packet = some 1 := by decide
  exact (gone packet _ live 1 List.mem_cons_self).mpr (Or.inl ⟨⟨1, List.mem_cons_self, asks⟩, rfl⟩)

end Book
end OnionCircuit
