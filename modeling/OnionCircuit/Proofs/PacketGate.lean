import OnionCircuit.Proofs.AgentHistory

/-! Who is turned away at the gate, in which order the checks come, and that nothing but the recency of the sender's own
endpoint tells afterwards that there was such a packet. -/

namespace OnionCircuit

/-- Whether an exchange may admit an unknown packet at a time. -/
def Exchange.Vacant (exchange : Exchange) (now : Micros) : Prop :=
  exchange.allowUnknown = true ∧ exchange.restrictedInterval.toInt ≤ now.toInt - exchange.lastAdmitted.toInt

theorem Exchange.admitUnknown?_cases (exchange : Exchange) (now : Micros) :
    exchange.Vacant now ∧ exchange.admitUnknown? now = .ok (some { exchange with lastAdmitted := now }) ∨
    ¬ exchange.Vacant now ∧ exchange.admitUnknown? now = .ok none ∨
    ∃ fault, exchange.admitUnknown? now = .error fault := by
  by_cases allows : exchange.allowUnknown = true
  · cases since : Checked.sub now exchange.lastAdmitted with
    | error fault =>
      refine Or.inr (Or.inr ⟨fault, ?_⟩)
      simp only [admitUnknown?, allows, if_true, since, Bind.bind, Except.bind]
    | ok passed =>
      have early : passed < exchange.restrictedInterval ↔
          now.toInt - exchange.lastAdmitted.toInt < exchange.restrictedInterval.toInt := by
        rw [Int64.lt_iff_toInt_lt, Checked.toInt_of_sub since]
      by_cases soon : passed < exchange.restrictedInterval
      · refine Or.inr (Or.inl ⟨fun vacant => Int.not_le.mpr (early.mp soon) vacant.2, ?_⟩)
        simp only [admitUnknown?, allows, if_true, since, Bind.bind, Except.bind, soon]
        rfl
      · exact Or.inl ⟨⟨allows, Int.not_lt.mp (mt early.mpr soon)⟩, Agent.admitUnknown?_eq allows since soon⟩
  · exact Or.inr (Or.inl ⟨fun vacant => allows vacant.1, if_neg allows⟩)

namespace Agent

/-- The rules that let a stranger in where no next hop is bound. -/
inductive Welcomes (agent : Agent) (exchange : Exchange) (sender : Address) (content : Bytes) (now : Micros) : Prop
  | unrestricted {entry : CachedEndpoint} (known : agent.cache.get? sender = some entry) (early : now < entry.openUntil)
  | openSesami (allows : exchange.allowOpenSesami = true) (kind : ContentKind.ofContent? content = some .openSesami)
  | unknown (vacant : exchange.Vacant now)

/-- Why a packet is turned away, in the order in which the checks come. -/
inductive Refuses (agent : Agent) (sender : Endpoint) (relayId : RelayId) (datagram : Bytes) (now : Micros) :
    DropReason → Prop
  | notRelayed (unnamed : relayId = 0) : Refuses agent sender relayId datagram now .notRelayed
  | malformed (named : relayId ≠ 0) (short : datagram.length < RelayIds.size) :
    Refuses agent sender relayId datagram now .malformed
  | unknownRelayId (named : relayId ≠ 0) (long : RelayIds.size ≤ datagram.length) (unused : relayId ∉ agent.table.ids) :
    Refuses agent sender relayId datagram now .unknownRelayId
  | foreign {exchange : Exchange} (named : relayId ≠ 0) (long : RelayIds.size ≤ datagram.length)
    (member : exchange ∈ agent.table.exchanges) (inner : relayId = exchange.innerId)
    (other : sender ≠ exchange.link.endpoint) : Refuses agent sender relayId datagram now .invalidSender
  | excluded {exchange : Exchange} {next : Binding} (named : relayId ≠ 0) (long : RelayIds.size ≤ datagram.length)
    (member : exchange ∈ agent.table.exchanges) (outer : relayId = exchange.outerId) (bound : exchange.outer = some next)
    (excludes : next.Excludes sender) : Refuses agent sender relayId datagram now .invalidSender
  | restricted {exchange : Exchange} (named : relayId ≠ 0) (long : RelayIds.size ≤ datagram.length)
    (member : exchange ∈ agent.table.exchanges) (outer : relayId = exchange.outerId) (free : exchange.outer = none)
    (unwelcome : ¬ agent.Welcomes exchange (Address.ofEndpoint sender) (datagram.drop RelayIds.size) now) :
    Refuses agent sender relayId datagram now .restricted

/-- An agent after a packet that it has turned away. -/
structure Undisturbed (agent : Agent) (sender : Address) (done : Processed) : Prop where
  config : done.agent.config = agent.config
  table : done.agent.table = agent.table
  queue : done.agent.queue = agent.queue
  cache : agent.cache.SameBut done.agent.cache sender
  effects : done.effects = []

section
variable {agent : Agent} {sender : Endpoint} {relayId : RelayId} {datagram content : Bytes} {now : Micros}
  {reason : DropReason} {exchange : Exchange}

theorem knows_iff {sender : Address} : agent.knows exchange sender content now = true ↔
    (∃ entry, agent.cache.get? sender = some entry ∧ now < entry.openUntil) ∨
      exchange.allowOpenSesami = true ∧ ContentKind.ofContent? content = some .openSesami := by
  rw [knows, Bool.or_eq_true, Bool.and_eq_true, beq_iff_eq]
  exact or_congr_left EndpointCache.accepts_iff

/-- Where nothing overflows, who is not let in is who is not welcome. -/
theorem admitUnknown?_none_iff {sender : Address}
    (runs : agent.knows exchange sender content now = false → ∀ fault, exchange.admitUnknown? now ≠ .error fault) :
    agent.knows exchange sender content now = false ∧ exchange.admitUnknown? now = .ok none ↔
      ¬ agent.Welcomes exchange sender content now := by
  constructor
  · rintro ⟨unknown, refuses⟩ welcome
    have stranger := mt knows_iff.mpr (Bool.eq_false_iff.mp unknown)
    cases welcome with
    | unrestricted known early => exact stranger (Or.inl ⟨_, known, early⟩)
    | openSesami allows kind => exact stranger (Or.inr ⟨allows, kind⟩)
    | unknown vacant =>
      obtain ⟨_, admits⟩ | ⟨taken, _⟩ | ⟨fault, fails⟩ := exchange.admitUnknown?_cases now
      · cases admits.symm.trans refuses
      · exact taken vacant
      · exact runs unknown fault fails
  · intro unwelcome
    have unknown : agent.knows exchange sender content now = false := by
      refine Bool.eq_false_iff.mpr fun known => ?_
      obtain ⟨entry, known, early⟩ | ⟨allows, kind⟩ := knows_iff.mp known
      · exact unwelcome (.unrestricted known early)
      · exact unwelcome (.openSesami allows kind)
    obtain ⟨vacant, _⟩ | ⟨_, refuses⟩ | ⟨fault, fails⟩ := exchange.admitUnknown?_cases now
    · exact absurd (.unknown vacant) unwelcome
    · exact ⟨unknown, refuses⟩
    · exact absurd fails (runs unknown fault)

theorem Gate.undisturbed {done : AgentStep (Except Fault (Except DropReason Accepted))}
    (gate : agent.Gate sender relayId content now done) (refused : done.value = .ok (.error reason)) :
    (done.agent = agent ∨ done.agent = agent.looked (Address.ofEndpoint sender) now) ∧ done.effects = [] := by
  cases gate with
  | nobody | foreign | excluded => exact ⟨Or.inl rfl, rfl⟩
  | restricted => exact ⟨Or.inr rfl, rfl⟩
  | client | neighbour | known | newcomer | fault => cases refused

theorem screen_refuses_iff (sound : agent.table.Sound) (named : relayId ≠ 0) (long : RelayIds.size ≤ datagram.length)
    (runs : ∀ fault, (agent.screen sender relayId (datagram.drop RelayIds.size) now).value ≠ .error fault) :
    (agent.screen sender relayId (datagram.drop RelayIds.size) now).value = .ok (.error reason) ↔
      agent.Refuses sender relayId datagram now reason := by
  have steady {exchange : Exchange} (found : agent.table.find? relayId = some (exchange, .inward))
      (free : exchange.outer = none)
      (unknown : agent.knows exchange (Address.ofEndpoint sender) (datagram.drop RelayIds.size) now = false) (fault : Fault) :
      exchange.admitUnknown? now ≠ .error fault := by
    intro fails
    apply runs fault
    simp only [screen, found, free, letIn_eq, unknown, Bool.false_eq_true, if_false, fails]
  rw [screen_bars_iff]
  constructor
  · intro bars
    cases bars with
    | nobody missing =>
      refine .unknownRelayId named long fun used => ?_
      rw [← ExchangeTable.contains_iff_mem_ids, ExchangeTable.contains, missing] at used
      cases used
    | foreign found other =>
      obtain ⟨member, inner⟩ := ExchangeTable.mem_of_find? found
      exact .foreign named long member inner other
    | excluded found bound excludes =>
      obtain ⟨member, outer⟩ := ExchangeTable.mem_of_find? found
      exact .excluded named long member outer bound excludes
    | restricted found free unknown refuses =>
      obtain ⟨member, outer⟩ := ExchangeTable.mem_of_find? found
      exact .restricted named long member outer free ((admitUnknown?_none_iff (steady found free)).mp ⟨unknown, refuses⟩)
  · intro refuses
    cases refuses with
    | notRelayed unnamed => exact absurd unnamed named
    | malformed _ short => exact absurd long (Nat.not_le.mpr short)
    | unknownRelayId _ _ unused =>
      refine .nobody (Option.not_isSome_iff_eq_none.mp fun used => unused ?_)
      exact ExchangeTable.contains_iff_mem_ids.mp used
    | foreign _ _ member inner other => exact .foreign (inner ▸ sound.find?_inner member) other
    | excluded _ _ member outer bound excludes => exact .excluded (outer ▸ sound.find?_outer member) bound excludes
    | restricted _ _ member outer free unwelcome =>
      have found := outer ▸ sound.find?_outer member
      obtain ⟨unknown, refuses⟩ := (admitUnknown?_none_iff (steady found free)).mpr unwelcome
      exact .restricted found free unknown refuses

variable (resolve : Resolver) (salt : UInt32)

theorem process_refused_eq (named : relayId ≠ 0) (long : RelayIds.size ≤ datagram.length)
    (refused : (agent.screen sender relayId (datagram.drop RelayIds.size) now).value = .ok (.error reason)) :
    agent.process resolve salt sender relayId datagram now =
      let screened := agent.screen sender relayId (datagram.drop RelayIds.size) now
      ⟨screened.agent, screened.effects, .ok (.dropped reason)⟩ := by
  simp only [process, named, Nat.not_lt.mpr long, if_false, refused]

theorem screen_runs (named : relayId ≠ 0) (long : RelayIds.size ≤ datagram.length)
    (runs : agent.fault? (.process resolve salt sender relayId datagram now) = none) (fault : Fault) :
    (agent.screen sender relayId (datagram.drop RelayIds.size) now).value ≠ .error fault := by
  intro fails
  simp only [fault?, process, named, Nat.not_lt.mpr long, if_false, fails, Fault.of?] at runs
  cases runs

theorem passes_of_refused
    (refused : (agent.screen sender relayId (datagram.drop RelayIds.size) now).value = .ok (.error reason)) :
    agent.passes sender relayId datagram now = false := by
  have screened := agent.screen_screened sender relayId (datagram.drop RelayIds.size) now
  cases admits : agent.admits sender relayId (datagram.drop RelayIds.size) now with
  | false => simp only [passes, admits, Bool.false_eq_true, and_false, decide_false]
  | true =>
    rw [admits] at screened
    generalize agent.screen sender relayId (datagram.drop RelayIds.size) now = done at screened refused
    cases screened with
    | admitted => cases refused

theorem screen_of_not_passes (named : relayId ≠ 0) (long : RelayIds.size ≤ datagram.length)
    (refuses : agent.passes sender relayId datagram now = false) (accepted : Accepted) :
    (agent.screen sender relayId (datagram.drop RelayIds.size) now).value ≠ .ok (.ok accepted) := by
  have screened := agent.screen_screened sender relayId (datagram.drop RelayIds.size) now
  simp only [passes, named, long, ne_eq, not_false_eq_true, true_and, Bool.decide_eq_true] at refuses
  rw [refuses] at screened
  generalize agent.screen sender relayId (datagram.drop RelayIds.size) now = done at screened
  cases screened with
  | refused _ _ keeps => exact keeps accepted

/-- A packet that is to be turned away is, and leaves everything as it was. -/
theorem Refuses.process (sound : agent.table.Sound) (fits : agent.cache.entries.length ≤ agent.cache.capacity)
    (runs : agent.fault? (.process resolve salt sender relayId datagram now) = none)
    (refuses : agent.Refuses sender relayId datagram now reason) :
    let done := agent.process resolve salt sender relayId datagram now
    done.value = .ok (.dropped reason) ∧ agent.passes sender relayId datagram now = false ∧
      agent.Undisturbed (Address.ofEndpoint sender) done := by
  intro done
  have same := EndpointCache.sameBut_refl agent.cache (Address.ofEndpoint sender)
  by_cases named : relayId = 0
  · cases refuses with
    | notRelayed =>
      have turned : done = agent.refuse .notRelayed := if_pos named
      rw [turned]
      exact ⟨rfl, by simp only [passes, named, ne_eq, not_true_eq_false, false_and, decide_false], rfl, rfl, rfl, same, rfl⟩
    | malformed some | unknownRelayId some | foreign some | excluded some | restricted some => exact absurd named some
  · by_cases short : datagram.length < RelayIds.size
    · cases refuses with
      | malformed =>
        have turned : done = agent.refuse .malformed := (if_neg named).trans (if_pos short)
        rw [turned]
        refine ⟨rfl, ?_, rfl, rfl, rfl, same, rfl⟩
        simp only [passes, Nat.not_le.mpr short, false_and, and_false, decide_false]
      | notRelayed unnamed => exact absurd unnamed named
      | unknownRelayId _ long | foreign _ long | excluded _ long | restricted _ long => exact absurd short (Nat.not_lt.mpr long)
    · have long := Nat.not_lt.mp short
      have refused := (screen_refuses_iff sound named long (screen_runs resolve salt named long runs)).mpr refuses
      have turned : done = _ := process_refused_eq resolve salt named long refused
      rw [turned]
      refine ⟨rfl, passes_of_refused refused, ?_⟩
      obtain ⟨untouched | looked, quiet⟩ :=
        (agent.screen_gate sender relayId (datagram.drop RelayIds.size) now).undisturbed refused
      · simp only [untouched, quiet]
        exact ⟨rfl, rfl, rfl, same, rfl⟩
      · simp only [looked, quiet]
        exact ⟨rfl, rfl, rfl, EndpointCache.sameBut_isUnrestricted _ _ fits now, rfl⟩

theorem refuses_of_process (sound : agent.table.Sound)
    (runs : agent.fault? (.process resolve salt sender relayId datagram now) = none)
    (early : reason.atGate = true ∨ agent.passes sender relayId datagram now = false)
    (dropped : (agent.process resolve salt sender relayId datagram now).value = .ok (.dropped reason)) :
    agent.Refuses sender relayId datagram now reason := by
  by_cases named : relayId = 0
  · have turned : agent.process resolve salt sender relayId datagram now = agent.refuse .notRelayed := if_pos named
    rw [turned] at dropped
    cases dropped
    exact .notRelayed named
  · by_cases short : datagram.length < RelayIds.size
    · have turned : agent.process resolve salt sender relayId datagram now = agent.refuse .malformed :=
        (if_neg named).trans (if_pos short)
      rw [turned] at dropped
      cases dropped
      exact .malformed named short
    · have long := Nat.not_lt.mp short
      have steady := screen_runs resolve salt named long runs
      cases screened : (agent.screen sender relayId (datagram.drop RelayIds.size) now).value with
      | error fault => exact absurd screened (steady fault)
      | ok judged =>
        cases judged with
        | error other =>
          rw [process_refused_eq resolve salt named long screened] at dropped
          cases dropped
          exact (screen_refuses_iff sound named long steady).mp screened
        | ok accepted =>
          obtain gate | refuses := early
          · cases screened.symm.trans ((process_gate_iff agent gate named resolve salt sender now long).mp dropped)
          · exact absurd screened (screen_of_not_passes named long refuses accepted)

/-- A packet changes no exchange but the one that owns the id. -/
theorem process_others (sound : agent.table.Sound) (inner : relayId ≠ exchange.innerId) (outer : relayId ≠ exchange.outerId) :
    exchange ∈ (agent.process resolve salt sender relayId datagram now).agent.table.exchanges ↔
      exchange ∈ agent.table.exchanges := by
  cases passes : agent.passes sender relayId datagram now with
  | false => rw [(process_refused passes resolve salt).1]
  | true =>
    obtain ⟨owner, charged, direction, guarded, found, _, table, same, done, _⟩ := process_charged passes resolve salt
    obtain ⟨present, own⟩ := ExchangeTable.mem_of_find? found
    -- Whoever owns the id has other ids than this exchange.
    have apart {other : Exchange} (ids : other.standing.ids = owner.standing.ids) : exchange ≠ other := by
      rintro rfl
      obtain ⟨sameInner, sameOuter⟩ := List.cons_eq_cons.mp ids
      cases direction with
      | outward => exact inner (own.trans sameInner.symm)
      | inward => exact outer (own.trans (List.cons_eq_cons.mp sameOuter).1.symm)
    have different (member : exchange ∈ agent.table.exchanges) : exchange.innerId ≠ charged.innerId := by
      intro shared
      rw [show charged.innerId = owner.innerId from congrArg Standing.innerId same] at shared
      exact apart rfl (sound.eq_of_shared member present (shared ▸ List.mem_cons_self) List.mem_cons_self)
    rw [done]
    obtain ⟨broke, _⟩ | ⟨paid, pays, _, less⟩ := charged.spend?_cases now
    · simp only [charge, broke, drop, table, ExchangeTable.mem_erase]
      exact and_iff_left_of_imp different
    · simp only [charge, pays, table]
      have newer : paid.standing.ids = charged.standing.ids := by
        rw [less]
        rfl
      have inside : paid.innerId = charged.innerId := (List.cons_eq_cons.mp newer).1
      constructor
      · intro member
        obtain rfl | ⟨old, _⟩ := ExchangeTable.mem_replace member
        · exact absurd rfl (apart (newer.trans (congrArg Standing.ids same)))
        · exact old
      · intro member
        exact ExchangeTable.mem_replace_of_ne member (inside ▸ different member)

/-- A packet is turned away exactly for what its sender, its ids, its length and the rules of its exchange say, and then
nothing has changed but how recent the sender's own endpoint is. No packet changes anybody else's exchange. -/
theorem turned_away_iff (config : AgentConfig) (operations : List Operation) (resolve : Resolver) (salt : UInt32)
    (sender : Endpoint) (relayId : RelayId) (datagram : Bytes) (now : Micros) :
    let agent := (fresh config).run operations
    let done := agent.process resolve salt sender relayId datagram now
    (agent.fault? (.process resolve salt sender relayId datagram now) = none →
      (∀ reason, reason.atGate = true →
        (done.value = .ok (.dropped reason) ↔ agent.Refuses sender relayId datagram now reason)) ∧
      (done.value = .ok (.dropped .malformed) ∧ agent.passes sender relayId datagram now = false ↔
        agent.Refuses sender relayId datagram now .malformed) ∧
      ∀ reason, agent.Refuses sender relayId datagram now reason → agent.Undisturbed (Address.ofEndpoint sender) done) ∧
    ∀ exchange, relayId ≠ exchange.innerId → relayId ≠ exchange.outerId →
      (exchange ∈ done.agent.table.exchanges ↔ exchange ∈ agent.table.exchanges) := by
  intro agent done
  have sound : agent.table.Sound := run_fresh_sound config operations
  have fits : agent.cache.entries.length ≤ agent.cache.capacity :=
    run_fits (EndpointCache.tidy_empty _) (Nat.zero_le _) operations
  refine ⟨fun runs => ?_, fun exchange inner outer => process_others resolve salt sound inner outer⟩
  have turns {reason : DropReason} (refuses : agent.Refuses sender relayId datagram now reason) :=
    refuses.process resolve salt sound fits runs
  refine ⟨fun reason gate => ⟨?_, fun refuses => (turns refuses).1⟩, ⟨?_, fun refuses => ?_⟩,
    fun reason refuses => (turns refuses).2.2⟩
  · exact refuses_of_process resolve salt sound runs (Or.inl gate)
  · rintro ⟨dropped, early⟩
    exact refuses_of_process resolve salt sound runs (Or.inr early) dropped
  · exact ⟨(turns refuses).1, (turns refuses).2.1⟩

theorem turned_away_stranger :
    let agent := (fresh {}).run [closedAdd]
    let done := agent.process (fun _ => none) 0 (stranger 9) 2 [0, 0, 0, 0, 2, 0, 0, 0, 4, 0] 2000000
    agent.Refuses (stranger 9) 2 [0, 0, 0, 0, 2, 0, 0, 0, 4, 0] 2000000 .restricted ∧
      agent.Undisturbed (Address.ofEndpoint (stranger 9)) done := by
  intro agent done
  have law := (turned_away_iff {} [closedAdd] (fun _ => none) 0 (stranger 9) 2
    [0, 0, 0, 0, 2, 0, 0, 0, 4, 0] 2000000).1 (by decide)
  have refuses := (law.1 .restricted rfl).mp (by decide)
  exact ⟨refuses, law.2.2 _ refuses⟩

end
end Agent
end OnionCircuit
