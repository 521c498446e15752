import OnionCircuit.Proofs.AgentFaults
import OnionCircuit.Proofs.ExchangeUses

/-! What a sweep removes: the exchanges whose link is closed or whose last use was too long ago, counted from the operation
that used them and not from anything that was refused or only gave them points. Nothing else happens to the agent, and a second
sweep right behind the first finds nothing, unless the first has closed a link that other exchanges still had. -/

namespace OnionCircuit

theorem ExchangeTable.Sound.foldl_erase_filter {table : ExchangeTable} (sound : table.Sound) (expired : Exchange → Bool) :
    (table.exchanges.filter expired).foldl ExchangeTable.erase table =
      ⟨table.exchanges.filter fun exchange => !expired exchange⟩ := by
  have left : ((table.exchanges.filter expired).foldl ExchangeTable.erase table).exchanges =
      table.exchanges.filter fun exchange => !expired exchange := by
    rw [exchanges_foldl_erase]
    apply List.filter_congr
    intro exchange member
    rw [Bool.eq_iff_iff, List.all_eq_true, Bool.not_eq_true', Bool.eq_false_iff]
    constructor
    · intro spared lapsed
      have gone := spared exchange (List.mem_filter.mpr ⟨member, lapsed⟩)
      exact of_decide_eq_true gone rfl
    · intro fresh other gone
      obtain ⟨present, lapsed⟩ := List.mem_filter.mp gone
      apply decide_eq_true
      intro same
      have shared : exchange.innerId ∈ [other.innerId, other.outerId] := by
        rw [same]
        exact List.mem_cons_self
      obtain rfl := sound.eq_of_shared member present List.mem_cons_self shared
      exact fresh lapsed
  rw [← left]

namespace Agent

def usedAt? (agent : Agent) (operation : Operation) (innerId : RelayId) : Option Micros :=
  (agent.use? operation innerId).bind fun _ => operation.time?

/-- When the exchange with an inner id was last used. -/
def lastUse? (past : List (Agent × Operation)) (innerId : RelayId) : Option Micros :=
  (past.filterMap fun moment => moment.1.usedAt? moment.2 innerId).getLast?

/-- Whether an exchange is to be swept away: for its link, or for the time since it was used. -/
def lapsed (past : List (Agent × Operation)) (retention : Micros) (isClosed : LinkRef → Bool) (now : Micros)
    (exchange : Exchange) : Bool :=
  isClosed exchange.link.ref ||
    (lastUse? past exchange.innerId).any fun used => retention.toInt < now.toInt - used.toInt

section
variable {agent : Agent} {isClosed : LinkRef → Bool} {now : Micros}

theorem lastAccess_after (operation : Operation) (exchange : Exchange)
    (member : exchange ∈ (agent.after operation).table.exchanges) :
    agent.usedAt? operation exchange.innerId = some exchange.lastAccess ∨
      agent.usedAt? operation exchange.innerId = none ∧
        ∃ old ∈ agent.table.exchanges, old.innerId = exchange.innerId ∧ old.lastAccess = exchange.lastAccess := by
  unfold usedAt?
  cases after_tends operation member with
  | tells uses time | touches uses time =>
    rw [uses]
    exact Or.inl time
  | spares unused present inner outer lastAccess =>
    rw [unused]
    exact Or.inr ⟨rfl, _, present, inner, lastAccess⟩

theorem Origin.retention {operation : Operation} {exchange : Exchange} (origin : agent.Origin operation exchange) :
    exchange.retention = agent.config.relayRetention ∨
      ∃ old ∈ agent.table.exchanges, old.retention = exchange.retention := by
  cases origin with
  | opened => exact Or.inl rfl
  | kept present | touched present | bound _ _ present | credited _ present => exact Or.inr ⟨_, present, rfl⟩
  | charged present asks own time spends =>
    obtain rfl := Exchange.spend?_eq spends
    exact Or.inr ⟨_, present, rfl⟩

/-- Every exchange is kept as long as the limits said from the start. -/
theorem run_retention (config : AgentConfig) (operations : List Operation) (exchange : Exchange)
    (live : exchange ∈ ((fresh config).run operations).table.exchanges) : exchange.retention = config.relayRetention := by
  induction operations using List.reverseRecOn generalizing exchange with
  | nil => cases live
  | append_singleton operations operation ih =>
    rw [run_append] at live
    obtain own | ⟨old, present, same⟩ := (after_origin (run_fresh_sound config operations) operation live).retention
    · rw [own, run_config]
      rfl
    · rw [← same]
      exact ih old present

theorem isExpired_eq {exchange : Exchange}
    (tells : isClosed exchange.link.ref = false → Checked.InRange (now.toInt - exchange.lastAccess.toInt)) :
    exchange.isExpired isClosed now =
      .ok (isClosed exchange.link.ref || decide (exchange.retention.toInt < now.toInt - exchange.lastAccess.toInt)) := by
  unfold Exchange.isExpired
  cases shut : isClosed exchange.link.ref with
  | true => rfl
  | false =>
    have idle : Checked.sub now exchange.lastAccess = .ok (now - exchange.lastAccess) := if_pos (tells shut)
    simp only [idle, Bool.false_eq_true, if_false, Bool.false_or, bind, Except.bind, pure, Except.pure,
      Int64.lt_iff_toInt_lt, Checked.toInt_of_sub idle]

/-- A sweep that can tell of every exchange whether it is expired removes those that are. -/
theorem clean_eq (sound : agent.table.Sound) {expired : Exchange → Bool}
    (tells : ∀ exchange ∈ agent.table.exchanges, exchange.isExpired isClosed now = .ok (expired exchange)) :
    let gone := agent.table.exchanges.filter expired
    agent.clean isClosed now =
      .ok ⟨agent.onTable ⟨agent.table.exchanges.filter fun exchange => !expired exchange⟩,
        gone.map fun exchange => .close exchange.link.ref, gone.length⟩ := by
  intro gone
  obtain ⟨found, told⟩ := ExchangeTable.expired_ok fun exchange member => ⟨_, tells exchange member⟩
  have all : found = gone := by
    rw [ExchangeTable.expired_eq told]
    apply List.filter_congr
    intro exchange member
    rw [tells exchange member]
    simp only [Except.toOption, Option.some.injEq, Bool.decide_eq_true]
  rw [all] at told
  simp only [clean, told, bind, Except.bind, pure, Except.pure, onTable, gone, sound.foldl_erase_filter]

/-- As long as the links that are left are as they were, there is nothing to sweep again. -/
theorem clean_again (sound : agent.table.Sound) {expired : Exchange → Bool} {later : LinkRef → Bool}
    (tells : ∀ exchange ∈ agent.table.exchanges, exchange.isExpired isClosed now = .ok (expired exchange))
    (same : ∀ exchange ∈ agent.table.exchanges, expired exchange = false →
      later exchange.link.ref = isClosed exchange.link.ref) :
    let left := agent.onTable ⟨agent.table.exchanges.filter fun exchange => !expired exchange⟩
    left.clean later now = .ok ⟨left, [], 0⟩ := by
  intro left
  have still : left.table.Sound := by
    have after := after_sound sound (.clean isClosed now)
    rwa [Agent.after, clean_eq sound tells] at after
  have fresh : ∀ exchange ∈ left.table.exchanges, exchange.isExpired later now = .ok false := by
    intro exchange member
    obtain ⟨present, kept⟩ := List.mem_filter.mp member
    rw [Bool.not_eq_true'] at kept
    rw [← kept, ← tells exchange present]
    simp only [Exchange.isExpired, same exchange present kept]
  rw [clean_eq still fresh]
  simp only [Bool.not_false, List.filter_true, List.filter_false, List.map_nil, List.length_nil]
  rfl

theorem link_of_left (apart : (agent.table.exchanges.map fun exchange => exchange.link.ref).Nodup)
    {expired : Exchange → Bool} {exchange : Exchange} (member : exchange ∈ agent.table.exchanges)
    (left : expired exchange = false) : AgentEffect.close exchange.link.ref ∉
      (agent.table.exchanges.filter expired).map fun exchange => AgentEffect.close exchange.link.ref := by
  intro closes
  obtain ⟨other, gone, same⟩ := List.mem_map.mp closes
  obtain ⟨present, lapsed⟩ := List.mem_filter.mp gone
  obtain rfl := List.inj_on_of_nodup_map apart present member (AgentEffect.close.inj same)
  cases left.symm.trans lapsed

end

/-- A sweep removes the exchanges whose link is closed or whose last use is longer ago than the retention, counts them and
closes their links. It leaves everything else as it is, and a second one finds nothing where no link is shared. -/
theorem sweep_exact (config : AgentConfig) (operations : List Operation) (isClosed : LinkRef → Bool) (now : Micros)
    (tells : ∀ exchange ∈ ((fresh config).run operations).table.exchanges, isClosed exchange.link.ref = false →
      ∀ used, lastUse? ((fresh config).history operations) exchange.innerId = some used →
        Checked.InRange (now.toInt - used.toInt)) :
    let agent := (fresh config).run operations
    let past := (fresh config).history operations
    let lapsed := lapsed past config.relayRetention isClosed now
    (∀ exchange ∈ agent.table.exchanges, ∃ used, lastUse? past exchange.innerId = some used) ∧
    ∃ swept, agent.clean isClosed now = .ok swept ∧
      swept.agent = agent.onTable ⟨agent.table.exchanges.filter fun exchange => !lapsed exchange⟩ ∧
      swept.effects = (agent.table.exchanges.filter lapsed).map (fun exchange => .close exchange.link.ref) ∧
      swept.value = (agent.table.exchanges.filter lapsed).length ∧
      ((agent.table.exchanges.map fun exchange => exchange.link.ref).Nodup →
        swept.agent.clean (fun link => isClosed link || .close link ∈ swept.effects) now = .ok ⟨swept.agent, [], 0⟩) := by
  intro agent past lapsed
  have sound : agent.table.Sound := run_fresh_sound config operations
  have used : ∀ exchange ∈ agent.table.exchanges, lastUse? past exchange.innerId = some exchange.lastAccess := by
    intro exchange live
    exact last_word lastAccess_after config operations live
  have expired : ∀ exchange ∈ agent.table.exchanges, exchange.isExpired isClosed now = .ok (lapsed exchange) := by
    intro exchange live
    rw [isExpired_eq fun opened => tells exchange live opened _ (used exchange live),
      run_retention config operations exchange live]
    simp only [lapsed, Agent.lapsed, used exchange live, Option.any_some]
  refine ⟨fun exchange live => ⟨_, used exchange live⟩, _, clean_eq sound expired, rfl, rfl, rfl, ?_⟩
  intro apart
  apply clean_again sound expired
  intro exchange live left
  rw [decide_eq_false (link_of_left apart live left), Bool.or_false]

/-- An exchange is kept for exactly its retention after a ping of its owner; what others ask and what it is given do not
count. -/
theorem sweep_exact_pinged :
    let operations := [closedAdd, .ping 1 1 5000000, .ping 2 1 9000000, .credit 1 5]
    let agent := (fresh {}).run operations
    lastUse? ((fresh {}).history operations) 1 = some 5000000 ∧
      (∃ swept, agent.clean (fun _ => false) 35000000 = .ok swept ∧ swept.value = 0) ∧
      ∃ swept, agent.clean (fun _ => false) 35000001 = .ok swept ∧ swept.value = 1 := by
  intro operations agent
  have used : lastUse? ((fresh {}).history operations) 1 = some 5000000 := by decide
  have only : ∀ exchange ∈ agent.table.exchanges, exchange.innerId = 1 := by decide
  have tells (now : Micros) (fits : Checked.InRange (now.toInt - (5000000 : Micros).toInt)) :
      ∀ exchange ∈ agent.table.exchanges, (false = false) → ∀ time,
        lastUse? ((fresh {}).history operations) exchange.innerId = some time → Checked.InRange (now.toInt - time.toInt) := by
    intro exchange live _ time last
    rw [only exchange live, used] at last
    cases last
    exact fits
  obtain ⟨_, kept, early, _, _, none, _⟩ := sweep_exact {} operations (fun _ => false) 35000000 (tells _ (by decide))
  obtain ⟨_, gone, late, _, _, one, _⟩ := sweep_exact {} operations (fun _ => false) 35000001 (tells _ (by decide))
  refine ⟨used, ⟨kept, early, none.trans ?_⟩, ⟨gone, late, one.trans ?_⟩⟩
  · decide
  · decide

end Agent
end OnionCircuit
