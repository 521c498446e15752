import OnionCircuit.Proofs.ExchangeOrigins
import OnionCircuit.Proofs.OutboundQueue
import OnionCircuit.Proofs.SliceBounds

/-! What can stop an agent. While the clock goes forward from its first second, the one sum that can leave its range is the
deadline of a connection packet. -/

namespace OnionCircuit

/-- The clock never shows less than its first second and never goes back. -/
def Timely (operations : List Operation) : Prop :=
  (Clock.second :: operations.filterMap Operation.time?).Pairwise (· ≤ ·)

instance (operations : List Operation) : Decidable (Timely operations) := inferInstanceAs (Decidable (List.Pairwise _ _))

namespace ExchangeTable

/-- Both times of every exchange have a property. -/
def Dated (property : Micros → Prop) (table : ExchangeTable) : Prop :=
  ∀ exchange ∈ table.exchanges, property exchange.lastAccess ∧ property exchange.lastAdmitted

end ExchangeTable

namespace Agent
variable {property : Micros → Prop} {agent : Agent}

/-- The times of exchanges are those of operations, or zero. -/
theorem after_dated (zero : property 0) (sound : agent.table.Sound) (dated : agent.table.Dated property)
    (operation : Operation) (present : ∀ now, operation.time? = some now → property now) :
    (agent.after operation).table.Dated property := by
  intro exchange member
  cases after_origin sound operation member with
  | opened adds _ =>
    subst adds
    exact ⟨present _ rfl, zero⟩
  | kept old _ => exact dated _ old
  | touched old _ time => exact ⟨present _ time, (dated _ old).2⟩
  | bound _ _ old _ time => exact ⟨present _ time, (dated _ old).2⟩
  | @credited old _ present => exact dated old present
  | charged old _ _ time spends =>
    cases Exchange.spend?_eq spends
    refine ⟨present _ time, ?_⟩
    cases takes : agent.slot? operation with
    | none => exact (dated _ old).2
    | some moment => exact present _ (slot?_time takes)

theorem run_dated (zero : property 0) (sound : agent.table.Sound) (dated : agent.table.Dated property)
    (operations : List Operation)
    (present : ∀ now ∈ operations.filterMap Operation.time?, property now) : (agent.run operations).table.Dated property := by
  induction operations generalizing agent with
  | nil => exact dated
  | cons operation operations ih =>
    refine ih (after_sound sound operation) (after_dated zero sound dated operation fun now asks => ?_) fun now later => ?_
    · exact present now (List.mem_filterMap.mpr ⟨operation, List.mem_cons_self, asks⟩)
    · obtain ⟨other, member, asks⟩ := List.mem_filterMap.mp later
      exact present now (List.mem_filterMap.mpr ⟨other, List.mem_cons_of_mem _ member, asks⟩)

end Agent

/-- Time that has passed since a reading of the clock can be told. -/
theorem Checked.sub_since {now before : Micros} (started : 0 ≤ before.toInt) (earlier : before.toInt ≤ now.toInt) :
    Checked.sub now before = .ok (now - before) := by
  have top : now.toInt ≤ 9223372036854775807 := Int64.toInt_le now
  exact if_pos ⟨by omega, by omega⟩

namespace Exchange
variable {exchange : Exchange} {now : Micros}

theorem admitUnknown?_ok (started : 0 ≤ exchange.lastAdmitted.toInt) (earlier : exchange.lastAdmitted.toInt ≤ now.toInt) :
    ∃ admitted, exchange.admitUnknown? now = .ok admitted := by
  unfold admitUnknown?
  split
  · rw [Checked.sub_since started earlier]
    simp only [Bind.bind, Except.bind]
    split <;> exact ⟨_, rfl⟩
  · exact ⟨_, rfl⟩

theorem isExpired_ok (started : 0 ≤ exchange.lastAccess.toInt) (earlier : exchange.lastAccess.toInt ≤ now.toInt)
    (isClosed : LinkRef → Bool) : ∃ expired, exchange.isExpired isClosed now = .ok expired := by
  unfold isExpired
  split
  · exact ⟨_, rfl⟩
  · rw [Checked.sub_since started earlier]
    exact ⟨_, rfl⟩

/-- Paying, with the point that is taken held against what there is. -/
def spendChecked? (exchange : Exchange) (now : Micros) : Except Fault (Option Exchange) :=
  if exchange.points ≤ 0 then .ok none
  else do
    let left ← Checked.sub exchange.points 1
    return some { exchange with points := left, lastAccess := now }

theorem spendChecked?_eq (exchange : Exchange) (now : Micros) : exchange.spendChecked? now = .ok (exchange.spend? now) := by
  unfold spendChecked? spend?
  split
  next => rfl
  next rich =>
    have one : (1 : Int64).toInt = 1 := rfl
    have top : exchange.points.toInt ≤ 9223372036854775807 := Int64.toInt_le exchange.points
    rw [Int64.not_le, Int64.lt_iff_toInt_lt] at rich
    change 0 < exchange.points.toInt at rich
    have left : Checked.sub exchange.points 1 = .ok (exchange.points - 1) := if_pos ⟨by omega, by omega⟩
    rw [left]
    rfl

end Exchange

theorem ExchangeTable.expired_ok {table : ExchangeTable} {isClosed : LinkRef → Bool} {now : Micros}
    (told : ∀ exchange ∈ table.exchanges, ∃ expired, exchange.isExpired isClosed now = .ok expired) :
    ∃ gone, table.expired isClosed now = .ok gone := by
  have collects (exchanges kept : List Exchange)
      (told : ∀ exchange ∈ exchanges, ∃ expired, exchange.isExpired isClosed now = .ok expired) :
      ∃ gathered, exchanges.filterAuxM (fun exchange => exchange.isExpired isClosed now) kept = .ok gathered := by
    induction exchanges generalizing kept with
    | nil => exact ⟨_, rfl⟩
    | cons first exchanges ih =>
      obtain ⟨expired, answer⟩ := told first List.mem_cons_self
      rw [List.filterAuxM, answer]
      exact ih _ fun exchange member => told exchange (List.mem_cons_of_mem _ member)
  obtain ⟨gathered, asked⟩ := collects table.exchanges [] told
  exact ⟨gathered.reverse, by rw [expired, List.filterM, asked]; rfl⟩

theorem Book.run_agent (book : Book) (operations : List Operation) : (book.run operations).agent = book.agent.run operations := by
  induction operations generalizing book with
  | nil => rfl
  | cons operation operations ih => exact ih (book.record operation)

namespace Agent
variable {agent : Agent}

/-- What is done with a packet fails in one way. -/
theorem act_fault {resolve : Resolver} {accepted : Accepted} {now : Micros} {reading : Reading} {fault : Fault}
    (fails : (agent.act resolve accepted now reading).value = .error fault) :
    fault = .addition ∧ ∃ address content, reading = .leaving address content ∧
      (agent.cache.lookup resolve address).endpoint.isSome = true ∧ agent.Overflows content now := by
  cases reading with
  | unreadable | arrived | passing => cases fails
  | leaving address content =>
    rw [act] at fails
    cases known : (agent.cache.lookup resolve address).endpoint with
    | none =>
      rw [(exit_unresolvable known accepted.exchange.outerId content now).1] at fails
      cases fails
    | some endpoint =>
      by_cases overflows : agent.Overflows content now
      · rw [(exit_overflows known overflows accepted.exchange.outerId).1] at fails
        cases fails
        exact ⟨rfl, address, content, rfl, by rw [known]; rfl, overflows⟩
      · rw [(exit_offers known overflows accepted.exchange.outerId).enqueued.1] at fails
        cases fails

theorem process_fault {resolve : Resolver} {salt : UInt32} {sender : Endpoint} {relayId : RelayId} {datagram : Bytes}
    {now : Micros} {fault : Fault}
    (dated : agent.table.Dated fun time => 0 ≤ time.toInt ∧ time.toInt ≤ now.toInt)
    (fails : (agent.process resolve salt sender relayId datagram now).value = .error fault) :
    fault = .addition ∧ ∃ address content, agent.Exits (.process resolve salt sender relayId datagram now) address content now ∧
      agent.Overflows content now := by
  cases accepts : agent.accepted? sender relayId datagram now with
  | none =>
    obtain ⟨_, refusal⟩ := process_turns_away accepts resolve salt
    rw [fails] at refusal
    cases refusal with
    | fault found fails =>
      -- Only an exchange with times ahead of the clock could not tell how long ago it admitted somebody.
      obtain ⟨_, started, earlier⟩ := dated _ (ExchangeTable.mem_of_find? found).1
      obtain ⟨admitted, admits⟩ := Exchange.admitUnknown?_ok started earlier
      rw [admits] at fails
      cases fails
  | some accepted =>
    obtain ⟨guarded, atGate, _, value⟩ := process_accepts accepts resolve salt
    rw [fails] at value
    obtain ⟨rfl, address, content, reads, known, overflows⟩ := act_fault value.symm
    have leaves := (exit?_eq_some salt now).mpr ⟨accepted, accepts, reads⟩
    rw [atGate.same_cache leaves] at known
    exact ⟨rfl, address, content, ⟨resolve, salt, sender, relayId, datagram, rfl, leaves, known⟩,
      atGate.overflows_iff.mp overflows⟩

theorem addPoints_ok (solvent : agent.Solvent) (relayId : RelayId) (points : Int64) :
    ∃ done, agent.addPoints relayId points = .ok done := by
  unfold addPoints
  split
  next exchange got =>
    obtain ⟨richer, credited, credits, _⟩ :=
      Exchange.credit_eq (solvent.funded exchange (ExchangeTable.mem_of_get? got)) points
    rw [credits]
    exact ⟨_, rfl⟩
  next => exact ⟨_, rfl⟩

theorem clean_ok {now : Micros} (dated : agent.table.Dated fun time => 0 ≤ time.toInt ∧ time.toInt ≤ now.toInt)
    (isClosed : LinkRef → Bool) : ∃ done, agent.clean isClosed now = .ok done := by
  have told (exchange : Exchange) (member : exchange ∈ agent.table.exchanges) :
      ∃ expired, exchange.isExpired isClosed now = .ok expired :=
    Exchange.isExpired_ok (dated exchange member).1.1 (dated exchange member).1.2 isClosed
  obtain ⟨gone, told⟩ := ExchangeTable.expired_ok told
  rw [clean, told]
  exact ⟨_, rfl⟩

theorem run_solvent {config : AgentConfig} (valid : config.validate = .ok ()) (operations : List Operation) :
    ((fresh config).run operations).Solvent :=
  (Book.start config).run_agent operations ▸ (Book.run_balanced valid operations).solvent

/-- What the clock has shown before an operation is at least its first second and at most what it shows then. -/
theorem readings_of_timely {operations : List Operation} {operation : Operation} {now : Micros}
    (timely : Timely (operations ++ [operation])) (asks : operation.time? = some now) :
    1000000 ≤ now.toInt ∧ ∀ time ∈ operations.filterMap Operation.time?, 1000000 ≤ time.toInt ∧ time.toInt ≤ now.toInt := by
  obtain ⟨started, ordered⟩ := List.pairwise_cons.mp timely
  rw [List.filterMap_append] at started ordered
  have last : now ∈ [operation].filterMap Operation.time? := List.mem_filterMap.mpr ⟨_, List.mem_cons_self, asks⟩
  have second : Clock.second.toInt = 1000000 := rfl
  have shown {time : Micros} (member : time ∈ operations.filterMap Operation.time? ++ [operation].filterMap Operation.time?) :
      1000000 ≤ time.toInt := by
    have late := started time member
    rwa [Int64.le_iff_toInt_le, second] at late
  refine ⟨shown (List.mem_append_right _ last), fun time member => ⟨shown (List.mem_append_left _ member), ?_⟩⟩
  exact Int64.le_iff_toInt_le.mp ((List.pairwise_append.mp ordered).2.2 time member now last)

theorem dated_of_timely {config : AgentConfig} {operations : List Operation} {operation : Operation} {now : Micros}
    (timely : Timely (operations ++ [operation])) (asks : operation.time? = some now) :
    ((fresh config).run operations).table.Dated fun time => 0 ≤ time.toInt ∧ time.toInt ≤ now.toInt := by
  obtain ⟨future, shown⟩ := readings_of_timely timely asks
  have zero : (0 : Micros).toInt = 0 := rfl
  -- A new exchange is dated zero where it has not admitted anybody; all other times are readings of the clock.
  refine run_dated ⟨by rw [zero], by rw [zero]; omega⟩ ExchangeTable.sound_empty
    (fun _ member => absurd member List.not_mem_nil) operations ?_
  intro time member
  have since := shown time member
  omega

/-- An agent with limits that make sense is stopped by a connection packet that leaves at a time from which its deadline
cannot be told, and by nothing else. It cuts no packet where there is nothing, and takes no point where there is none. -/
theorem run_faults_iff {config : AgentConfig} (valid : config.validate = .ok ()) {operations : List Operation}
    {operation : Operation} (timely : Timely (operations ++ [operation])) :
    let agent := (fresh config).run operations
    (∀ fault, agent.fault? operation = some fault ↔
      fault = .addition ∧ ∃ address content now, agent.Exits operation address content now ∧
        ContentKind.ofContent? content = some .connect ∧
        ¬ Checked.InRange (now.toInt + config.endpointRetention.toInt)) ∧
    (∀ resolve salt sender relayId datagram now, agent.processCut resolve salt sender relayId datagram now =
      .ok (agent.process resolve salt sender relayId datagram now)) ∧
    ∀ (exchange : Exchange) (now : Micros), exchange.spendChecked? now = .ok (exchange.spend? now) := by
  intro agent
  refine ⟨fun fault => ⟨fun stops => ?_, ?_⟩, agent.processCut_eq, Exchange.spendChecked?_eq⟩
  · cases operation with
    | credit relayId points =>
      obtain ⟨done, adds⟩ := addPoints_ok (run_solvent valid operations) relayId points
      rw [fault?, adds] at stops
      cases stops
    | clean isClosed now =>
      obtain ⟨done, cleans⟩ := clean_ok (dated_of_timely timely rfl) isClosed
      rw [fault?, cleans] at stops
      cases stops
    | process resolve salt sender relayId datagram now =>
      have fails : (agent.process resolve salt sender relayId datagram now).value = .error fault := by
        rw [fault?] at stops
        generalize (agent.process resolve salt sender relayId datagram now).value = value at stops
        cases value <;> cases stops
        rfl
      obtain ⟨rfl, address, content, exits, connects, outside⟩ := process_fault (dated_of_timely timely rfl) fails
      rw [run_config] at outside
      exact ⟨rfl, address, content, now, exits, connects, outside⟩
    | _ => cases stops
  · rintro ⟨rfl, address, content, now, exits, connects, outside⟩
    refine exits.parcel?.1 ⟨connects, ?_⟩
    rw [run_config]
    exact outside

/-- With the limits that are there from the start, a connection packet does not stop the agent in its first second. -/
theorem run_faults_never : ((fresh {}).run [closedAdd]).fault? (closedSend 2 [1, 0] 1000000) = none := by
  have valid : ({} : AgentConfig).validate = .ok () := rfl
  have timely : Timely ([closedAdd] ++ [closedSend 2 [1, 0] 1000000]) := by decide
  have faults := (run_faults_iff valid timely).1
  cases stops : ((fresh {}).run [closedAdd]).fault? (closedSend 2 [1, 0] 1000000) with
  | none => rfl
  | some fault =>
    obtain ⟨_, _, _, now, exits, _, outside⟩ := (faults fault).mp stops
    have roomy : 0 < ({} : AgentConfig).maxExchanges.toNat := by decide
    have inSecond := exits_closedSend roomy 2 [1, 0] 1000000 rfl
    obtain ⟨_, _, rfl⟩ := exits.unique inSecond
    have inside : Checked.InRange ((1000000 : Micros).toInt + (60000000 : Micros).toInt) := by decide
    exact absurd inside outside

/-- A limit that makes sense lets a connection packet stop the agent in its first second. -/
theorem connection_faults :
    let config : AgentConfig := { endpointRetention := 9223372036854775807 }
    config.validate = .ok () ∧ Timely ([closedAdd] ++ [closedSend 2 [1, 0] 1000000]) ∧
      ((fresh config).run [closedAdd]).fault? (closedSend 2 [1, 0] 1000000) = some .addition := by
  intro config
  have roomy : 0 < config.maxExchanges.toNat := by decide
  have valid : config.validate = .ok () := by
    rw [AgentLimits.validate, if_neg (by decide), if_neg (by decide), if_neg (by decide), if_neg (by decide),
      if_neg (by decide)]
  have exits := exits_closedSend roomy 2 [1, 0] 1000000 rfl
  have outside : ¬ Checked.InRange ((1000000 : Micros).toInt + (9223372036854775807 : Micros).toInt) := by decide
  refine ⟨valid, by decide, exits.parcel?.1 ⟨rfl, ?_⟩⟩
  rw [after_config]
  exact outside

end Agent
end OnionCircuit
