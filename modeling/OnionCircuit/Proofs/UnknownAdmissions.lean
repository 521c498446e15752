import OnionCircuit.Proofs.AgentFaults
import OnionCircuit.Proofs.PacketGate

/-! How often an exchange lets strangers in. It keeps the time of the last one only, which stands for all of them, and a
time before the clock began for none. -/

namespace OnionCircuit
namespace Agent

/-- The times at which the exchange of an id let in strangers just because it lets in anyone now and then, after another
operation. An id that is handed out belongs to an exchange that has not let in anybody. -/
def noted (agent : Agent) (relayId : RelayId) (times : List Micros) (operation : Operation) : List Micros :=
  match agent.posting operation with
  | .opened inner outer => if relayId = inner ∨ relayId = outer then [] else times
  | _ => if agent.asks? operation = some relayId then (agent.slot? operation).toList ++ times else times

/-- Those times, the last one first. -/
def admissions (relayId : RelayId) (past : List (Agent × Operation)) (times : List Micros) : List Micros :=
  past.foldl (fun times step => step.1.noted relayId times step.2) times

/-- What the exchanges remember of the strangers they let in. -/
structure Remembers (agent : Agent) (limits : AgentConfig) (times : RelayId → List Micros) : Prop where
  sound : agent.table.Sound
  config : agent.config = limits
  interval : ∀ exchange ∈ agent.table.exchanges, exchange.restrictedInterval = limits.restrictedInterval
  last : ∀ exchange ∈ agent.table.exchanges, exchange.lastAdmitted = (times exchange.outerId).head?.getD 0

section
variable {agent : Agent} {operation : Operation} {exchange : Exchange} {relayId : RelayId} {times : List Micros}

theorem unused_of_opened {inner outer : RelayId} (reports : agent.posting operation = .opened inner outer) :
    agent.asks? operation = none ∧ inner ∉ agent.table.ids ∧ outer ∉ agent.table.ids := by
  cases operation with
  | add link block now words =>
    cases added : agent.addExchange? link block now words with
    | none =>
      simp only [posting_add, added] at reports
      cases reports
    | some done =>
      obtain ⟨next, result, rest⟩ := done
      obtain ⟨_, rfl⟩ | ⟨_, _, rfl, unused, free, _⟩ := addExchange?_cases added
      · simp only [posting_add, added] at reports
        cases reports
      · simp only [posting_add, added, Posting.opened.injEq] at reports
        obtain ⟨rfl, rfl⟩ := reports
        exact ⟨rfl, unused, free⟩
  | credit | decrement | clean | process =>
    simp only [posting_credit, posting_decrement, posting_clean, posting_process] at reports
    repeat' split at reports
    all_goals cases reports
  | _ => cases reports

theorem noted_of_present (present : exchange ∈ agent.table.exchanges) : agent.noted exchange.outerId times operation =
    if agent.asks? operation = some exchange.outerId then (agent.slot? operation).toList ++ times else times := by
  unfold noted
  split
  next inner outer reports =>
    obtain ⟨free, unused, fresh⟩ := unused_of_opened reports
    have used : exchange.outerId ∈ agent.table.ids := ExchangeTable.mem_ids.mpr ⟨exchange, present, Or.inr rfl⟩
    have apart : ¬ (exchange.outerId = inner ∨ exchange.outerId = outer) := by
      rintro (same | same)
      · exact unused (same ▸ used)
      · exact fresh (same ▸ used)
    simp only [apart, free, reduceCtorEq, if_false]
  next => rfl

theorem asks_outer (sound : agent.table.Sound) (present : exchange ∈ agent.table.exchanges) {time : Micros}
    (takes : agent.slot? operation = some time) (asks : agent.asks? operation = some relayId)
    (own : relayId ∈ exchange.standing.ids) : relayId = exchange.outerId := by
  cases operation with
  | process resolve salt sender target datagram now =>
    simp only [slot?] at takes
    split at takes
    next strange =>
      obtain ⟨passes, strange⟩ := (Bool.and_eq_true _ _).mp strange
      simp only [asks?, passes, if_true, Option.some.injEq] at asks
      subst asks
      unfold isStrange at strange
      split at strange
      next owner found =>
        obtain ⟨member, outer⟩ := ExchangeTable.mem_of_find? found
        obtain rfl := sound.eq_of_shared member present (outer ▸ List.mem_cons_of_mem _ List.mem_cons_self) own
        exact outer
      next => cases strange
    next => cases takes
  | _ => cases takes

/-- Nobody but who asks to pay for a stranger gets another time to remember. -/
theorem Remembers.after {limits : AgentConfig} {times : RelayId → List Micros} (remembers : agent.Remembers limits times)
    (operation : Operation) :
    (agent.after operation).Remembers limits fun relayId => agent.noted relayId (times relayId) operation := by
  have still (old : Exchange) (present : old ∈ agent.table.exchanges) (free : agent.asks? operation ≠ some old.outerId) :
      old.restrictedInterval = limits.restrictedInterval ∧
      old.lastAdmitted = (agent.noted old.outerId (times old.outerId) operation).head?.getD 0 := by
    rw [noted_of_present present, if_neg free]
    exact ⟨remembers.interval old present, remembers.last old present⟩
  have both (exchange : Exchange) (member : exchange ∈ (agent.after operation).table.exchanges) :
      exchange.restrictedInterval = limits.restrictedInterval ∧
      exchange.lastAdmitted = (agent.noted exchange.outerId (times exchange.outerId) operation).head?.getD 0 := by
    cases after_origin remembers.sound operation member with
    | @opened inner outer _ _ _ _ _ reports =>
      refine ⟨congrArg (·.restrictedInterval) remembers.config, ?_⟩
      have nobody : agent.noted outer (times outer) operation = [] := by simp only [noted, reports, or_true, if_true]
      exact (congrArg (·.head?.getD 0) nobody).symm
    | kept present spared => exact still _ present (spared _ (List.mem_cons_of_mem _ List.mem_cons_self))
    | @touched old _ present free => exact still old present (by rw [free]; nofun)
    | @bound old _ _ _ present free => exact still old present (by rw [free]; nofun)
    | @credited old _ present free => exact still old present (by rw [free]; nofun)
    | @charged old paid asked now present asks own time spends =>
      cases Exchange.spend?_eq spends
      by_cases stranger : asked = old.outerId
      · refine ⟨remembers.interval old present, ?_⟩
        have before := remembers.last old present
        have noted : agent.noted old.outerId (times old.outerId) operation = _ := noted_of_present present
        rw [asks, stranger, if_pos rfl] at noted
        change (agent.slot? operation).getD old.lastAdmitted = (agent.noted old.outerId (times old.outerId) operation).head?.getD 0
        rw [noted, before]
        cases agent.slot? operation <;> rfl
      · -- A client's packet takes no slot.
        have spares : agent.slot? operation = none := by
          cases takes : agent.slot? operation with
          | none => rfl
          | some moment => exact absurd (asks_outer remembers.sound present takes asks own) stranger
        have same := still old present (by rw [asks]; exact fun same => stranger (Option.some.inj same))
        rw [spares]
        exact same
  exact ⟨after_sound remembers.sound operation, (agent.after_config operation).trans remembers.config,
    fun exchange member => (both exchange member).1, fun exchange member => (both exchange member).2⟩

theorem Remembers.run {limits : AgentConfig} {times : RelayId → List Micros} (remembers : agent.Remembers limits times)
    (operations : List Operation) :
    (agent.run operations).Remembers limits fun relayId => admissions relayId (agent.history operations) (times relayId) := by
  induction operations generalizing agent times with
  | nil => exact remembers
  | cons operation operations ih => exact ih (remembers.after operation)

theorem noted_sublist (agent : Agent) (relayId : RelayId) (times : List Micros) (operation : Operation) :
    (agent.noted relayId times operation).Sublist (operation.time?.toList ++ times) := by
  have older : times.Sublist (operation.time?.toList ++ times) := List.sublist_append_right _ _
  unfold noted
  split
  · split
    · exact List.nil_sublist _
    · exact older
  · split
    · cases takes : agent.slot? operation with
      | none => exact older
      | some time =>
        rw [slot?_time takes]
    · exact older

theorem admissions_sublist (agent : Agent) (relayId : RelayId) (operations : List Operation) (times : List Micros) :
    (admissions relayId (agent.history operations) times).Sublist
      ((operations.filterMap Operation.time?).reverse ++ times) := by
  induction operations generalizing agent times with
  | nil => exact List.Sublist.refl _
  | cons operation operations ih =>
    have first : ((operation :: operations).filterMap Operation.time?).reverse =
        (operations.filterMap Operation.time?).reverse ++ operation.time?.toList := by
      rw [List.filterMap_cons]
      cases operation.time? with
      | none => exact (List.append_nil _).symm
      | some time => exact List.reverse_cons
    rw [first, List.append_assoc]
    exact (ih (agent.after operation) (agent.noted relayId times operation)).trans
      ((agent.noted_sublist relayId times operation).append_left _)

/-- Under a clock that goes forward, the last time that is remembered is the latest one, and none is before the clock began. -/
theorem admissions_ordered {config : AgentConfig} {operations : List Operation} {operation : Operation} {now : Micros}
    (timely : Timely (operations ++ [operation])) (asks : operation.time? = some now) (relayId : RelayId) :
    let earlier := admissions relayId ((fresh config).history operations) []
    earlier.Pairwise (fun late early => early.toInt ≤ late.toInt) ∧
      ∀ time ∈ earlier, 0 ≤ time.toInt ∧ time.toInt ≤ now.toInt := by
  intro earlier
  have shown := (readings_of_timely timely asks).2
  have sublist := admissions_sublist (fresh config) relayId operations []
  rw [List.append_nil] at sublist
  constructor
  · have ordered := (List.pairwise_cons.mp timely).2
    rw [List.filterMap_append] at ordered
    have before := List.pairwise_reverse.mpr (List.pairwise_append.mp ordered).1
    exact (before.sublist sublist).imp Int64.le_iff_toInt_le.mp
  · intro time member
    have reading := shown time (List.mem_reverse.mp (sublist.subset member))
    omega

/-- An exchange without a next hop lets in whom it knows, and anyone else if it may now. -/
theorem passes_stranger_iff {sender : Endpoint} {datagram : Bytes} {now : Micros} (sound : agent.table.Sound)
    (present : exchange ∈ agent.table.exchanges) (free : exchange.outer = none) (long : RelayIds.size ≤ datagram.length)
    (runs : ∀ fault, exchange.admitUnknown? now ≠ .error fault) :
    agent.passes sender exchange.outerId datagram now = true ↔
      agent.Welcomes exchange (Address.ofEndpoint sender) (datagram.drop RelayIds.size) now := by
  have found := sound.find?_outer present
  have named : exchange.outerId ≠ 0 := by
    intro zero
    exact sound.named (ExchangeTable.mem_ids.mpr ⟨exchange, present, Or.inr zero.symm⟩)
  rw [← not_iff_not, ← admitUnknown?_none_iff fun _ => runs]
  simp only [passes, named, long, ne_eq, not_false_eq_true, true_and, admits, found, free, letIn_eq, decide_eq_true_eq]
  cases agent.knows exchange (Address.ofEndpoint sender) (datagram.drop RelayIds.size) now with
  | true => simp
  | false =>
    cases answer : exchange.admitUnknown? now with
    | error fault => exact absurd answer (runs fault)
    | ok admitted => cases admitted <;> simp

/-- A stranger is let in for who he is or for what he sends. -/
def Exempts (agent : Agent) (exchange : Exchange) (sender : Address) (content : Bytes) (now : Micros) : Prop :=
  agent.cache.accepts sender now = true ∨
    exchange.allowOpenSesami = true ∧ ContentKind.ofContent? content = some .openSesami

theorem exempts_iff {sender : Address} {content : Bytes} {now : Micros} :
    agent.Exempts exchange sender content now ↔ agent.knows exchange sender content now = true := by
  rw [knows_iff, Exempts, EndpointCache.accepts_iff]

theorem noted_stranger (sound : agent.table.Sound) (present : exchange ∈ agent.table.exchanges) (free : exchange.outer = none)
    {resolve : Resolver} {salt : UInt32} {sender : Endpoint} {datagram : Bytes} {now : Micros} :
    agent.noted exchange.outerId times (.process resolve salt sender exchange.outerId datagram now) =
      if agent.passes sender exchange.outerId datagram now = true ∧
        agent.knows exchange (Address.ofEndpoint sender) (datagram.drop RelayIds.size) now = false
      then now :: times else times := by
  have found := sound.find?_outer present
  rw [noted_of_present present]
  simp only [asks?, slot?, isStrange, found, free, Option.isNone_none, Bool.true_and]
  cases agent.passes sender exchange.outerId datagram now with
  | false => simp
  | true => cases agent.knows exchange (Address.ofEndpoint sender) (datagram.drop RelayIds.size) now <;> simp

/-- A time is far enough from all that are remembered if it is from the last one, and from the time before the clock. -/
private theorem vacant_iff {config : AgentConfig} {now : Micros} (interval : exchange.restrictedInterval = config.restrictedInterval)
    (last : exchange.lastAdmitted = times.head?.getD 0) (allows : exchange.allowUnknown = true)
    (ordered : times.Pairwise fun late early => early.toInt ≤ late.toInt) (started : ∀ time ∈ times, 0 ≤ time.toInt) :
    exchange.Vacant now ↔ config.restrictedInterval.toInt ≤ now.toInt ∧
      ∀ time ∈ times, config.restrictedInterval.toInt ≤ now.toInt - time.toInt := by
  rw [Exchange.Vacant, and_iff_right allows, interval, last]
  cases times with
  | nil =>
    have zero : (0 : Micros).toInt = 0 := rfl
    simp only [List.head?_nil, Option.getD_none, zero, Int.sub_zero, List.not_mem_nil, false_implies, implies_true, and_true]
  | cons latest older =>
    have least := started latest List.mem_cons_self
    have later := (List.pairwise_cons.mp ordered).1
    simp only [List.head?_cons, Option.getD_some, List.forall_mem_cons]
    constructor
    · intro far
      refine ⟨by omega, far, fun time member => ?_⟩
      have before := later time member
      omega
    · exact fun far => far.2.1

/-- Who has to wait for his turn is let in exactly if all strangers that came before him were let in long enough ago, and
the clock itself has run for long enough. Who is exempt passes without a turn, and who does not pass takes none. -/
theorem stranger_admitted_iff (config : AgentConfig) (operations : List Operation) (resolve : Resolver) (salt : UInt32)
    (sender : Endpoint) (exchange : Exchange) (datagram : Bytes) (now : Micros)
    (timely : Timely (operations ++ [.process resolve salt sender exchange.outerId datagram now]))
    (present : exchange ∈ ((fresh config).run operations).table.exchanges) (free : exchange.outer = none)
    (allows : exchange.allowUnknown = true) (long : RelayIds.size ≤ datagram.length) :
    let agent := (fresh config).run operations
    let packet := Operation.process resolve salt sender exchange.outerId datagram now
    let passes := agent.passes sender exchange.outerId datagram now
    let exempt := agent.Exempts exchange (Address.ofEndpoint sender) (datagram.drop RelayIds.size) now
    let earlier := admissions exchange.outerId ((fresh config).history operations) []
    let later := admissions exchange.outerId ((fresh config).history (operations ++ [packet])) []
    (¬ exempt → (passes = true ↔ config.restrictedInterval.toInt ≤ now.toInt ∧
      ∀ time ∈ earlier, config.restrictedInterval.toInt ≤ now.toInt - time.toInt)) ∧
    (exempt → passes = true) ∧
    (passes = true ∧ ¬ exempt → later = now :: earlier) ∧ (¬ (passes = true ∧ ¬ exempt) → later = earlier) := by
  intro agent packet passes exempt earlier later
  have blank : (fresh config).Remembers config fun _ => [] := ⟨ExchangeTable.sound_empty, rfl,
    fun _ member => absurd member List.not_mem_nil, fun _ member => absurd member List.not_mem_nil⟩
  have remembers := blank.run operations
  obtain ⟨ordered, started⟩ := admissions_ordered timely rfl exchange.outerId
  have dated := dated_of_timely timely rfl exchange present
  have runs (fault : Fault) : exchange.admitUnknown? now ≠ .error fault := by
    obtain ⟨answer, admits⟩ := Exchange.admitUnknown?_ok dated.2.1 dated.2.2
    rw [admits]
    nofun
  have welcomes : passes = true ↔ _ := passes_stranger_iff remembers.sound present free long runs
  have vacant : exchange.Vacant now ↔ _ := vacant_iff (remembers.interval exchange present) (remembers.last exchange present) allows ordered
    fun time member => (started time member).1
  have exempted : exempt ↔ _ := exempts_iff
  have grows : later = agent.noted exchange.outerId earlier packet := by
    simp only [later, admissions, history_concat, List.foldl_append]
    rfl
  rw [noted_stranger remembers.sound present free] at grows
  refine ⟨fun waits => ?_, fun known => ?_, ?_, ?_⟩
  · rw [welcomes, ← vacant]
    refine ⟨fun welcome => ?_, .unknown⟩
    cases welcome with
    | unrestricted known early => exact absurd (Or.inl (EndpointCache.accepts_iff.mpr ⟨_, known, early⟩)) waits
    | openSesami sesami kind => exact absurd (Or.inr ⟨sesami, kind⟩) waits
    | unknown vacant => exact vacant
  · obtain open_now | ⟨sesami, kind⟩ := known
    · obtain ⟨entry, cached, early⟩ := EndpointCache.accepts_iff.mp open_now
      exact welcomes.mpr (.unrestricted cached early)
    · exact welcomes.mpr (.openSesami sesami kind)
  · rintro ⟨passed, waits⟩
    rw [grows, if_pos ⟨passed, Bool.eq_false_iff.mpr (mt exempted.mpr waits)⟩]
  · intro spared
    rw [grows, if_neg]
    rintro ⟨passed, stranger⟩
    exact spared ⟨passed, fun known => Bool.eq_false_iff.mp stranger (exempted.mp known)⟩

/-- The link of hop 1 gets an exchange with the ids 1 and 2 that lets in anyone now and then. -/
def openAdd : Operation :=
  .add (Circuit.numberedHop 1).link ⟨(Circuit.numberedHop 1).key, false, true⟩ 1000000 [1, 2]

def openExchange (limits : AgentLimits) : Exchange :=
  .start 1 2 (Circuit.numberedHop 1).link ⟨(Circuit.numberedHop 1).key, false, true⟩ limits 1000000

/-- A stranger sends two bytes there. -/
def strangerSend (now : Micros) : Operation := .process (fun _ => none) 0 (stranger 9) 2 [0, 0, 0, 0, 2, 0, 0, 0, 4, 0] now

theorem stranger_admitted_first :
    ((fresh {}).run [openAdd]).passes (stranger 9) 2 [0, 0, 0, 0, 2, 0, 0, 0, 4, 0] 1000000 = true ∧
    admissions 2 ((fresh {}).history ([openAdd] ++ [strangerSend 1000000])) [] = [1000000] := by
  have waits : ¬ ((fresh {}).run [openAdd]).Exempts (openExchange ({} : AgentConfig).toAgentLimits)
      (Address.ofEndpoint (stranger 9)) [4, 0] 1000000 := mt exempts_iff.mp (by decide)
  obtain ⟨admits, _, takes, _⟩ := stranger_admitted_iff {} [openAdd] (fun _ => none) 0 (stranger 9)
    (openExchange ({} : AgentConfig).toAgentLimits) [0, 0, 0, 0, 2, 0, 0, 0, 4, 0] 1000000 (by decide)
    (List.mem_singleton.mpr rfl) rfl rfl (by decide)
  have first := (admits waits).mpr ⟨by decide, fun _ member => absurd member List.not_mem_nil⟩
  exact ⟨first, takes ⟨first, waits⟩⟩

/-- With an interval of two seconds, nobody is let in in the first one, though nobody was let in before. -/
theorem not_stranger_admitted :
    let config : AgentConfig := { restrictedInterval := 2000000 }
    let agent := (fresh config).run [openAdd]
    let exchange := openExchange config.toAgentLimits
    config.validate = .ok () ∧ Timely ([openAdd] ++ [strangerSend 1000000]) ∧
    exchange ∈ agent.table.exchanges ∧ exchange.outer = none ∧ exchange.allowUnknown = true ∧
    ¬ agent.Exempts exchange (Address.ofEndpoint (stranger 9)) [4, 0] 1000000 ∧
    admissions exchange.outerId ((fresh config).history [openAdd]) [] = [] ∧
    agent.outcome? (strangerSend 1000000) = some (.dropped .restricted) := by
  intro config agent exchange
  have valid : config.validate = .ok () := by
    rw [AgentLimits.validate, if_neg (by decide), if_neg (by decide), if_neg (by decide), if_neg (by decide),
      if_neg (by decide)]
  exact ⟨valid, by decide, List.mem_singleton.mpr rfl, rfl, rfl, mt exempts_iff.mp (by decide), rfl, by decide⟩

end
end Agent
end OnionCircuit
