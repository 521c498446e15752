import OnionCircuit.Proofs.OutboundQueue

/-! Which dropped packets let somebody in all the same. An endpoint is opened before the queue is asked, and stays open
when the queue refuses. -/

namespace OnionCircuit
namespace Agent

section
variable {agent : Agent} {operation : Operation} {address : Address} {content : Bytes} {now time : Micros}

theorem fault?_of_outcome? {outcome : RelayOutcome} (said : agent.outcome? operation = some outcome) :
    agent.fault? operation = none := by
  cases operation with
  | process resolve salt sender relayId datagram now =>
    simp only [outcome?, fault?] at said ⊢
    generalize (agent.process resolve salt sender relayId datagram now).value = value at said
    cases value with
    | error fault => cases said
    | ok outcome => rfl
  | _ => cases said

/-- What leaves for an endpoint and is dropped was dropped by the queue. -/
theorem Exits.dropped {reason : DropReason} (exits : agent.Exits operation address content now)
    (drops : agent.outcome? operation = some (.dropped reason)) :
    ¬ agent.Overflows content now ∧ (reason = .tooLarge ∨ reason = .queueFull) := by
  have fits : ¬ agent.Overflows content now := by
    intro overflows
    have fault := exits.parcel?.1 overflows
    rw [fault?_of_outcome? drops] at fault
    cases fault
  refine ⟨fits, ?_⟩
  obtain ⟨packet, becomes⟩ := exits.parcel?.2 fits
  rw [(parcel?_enqueued becomes).1] at drops
  obtain ⟨other, refused, why⟩ | ⟨_, _, forwarded, _⟩ := agent.enqueue_cases packet
  · rw [refused] at drops
    cases drops
    exact why.imp_right And.left
  · rw [forwarded] at drops
    cases drops

/-- After content has left for it, an address may send as long as before, and until the deadline of the content. -/
theorem Exits.accepts_iff (exits : agent.Exits operation address content now) (room : 0 < agent.cache.capacity) :
    (agent.after operation).cache.accepts address time = true ↔
      time < agent.cache.openUntil address ∨ ∃ deadline, agent.deadline? content now = some deadline ∧ time < deadline := by
  obtain ⟨endpoint, put⟩ := exits.cache room
  rw [put, EndpointCache.accepts_put_same room, decide_eq_true_eq]
  cases agent.deadline? content now with
  | none => exact ⟨Or.inl, fun before => before.resolve_right nofun⟩
  | some deadline =>
    simp only [Option.map_some, Option.getD_some, Option.some.injEq, exists_eq_left']
    exact Micros.lt_max_iff

/-- An address that nothing leaves for may send no longer than before. -/
theorem accepts_of_after (room : 0 < agent.cache.capacity)
    (still : ∀ content now, ¬ agent.Exits operation address content now)
    (accepts : (agent.after operation).cache.accepts address time = true) : agent.cache.accepts address time = true := by
  have touch := agent.after_touch room operation
  generalize (agent.after operation).cache = cache at touch accepts
  cases touch with
  | nothing => exact accepts
  | @seen other entry _ known =>
    by_cases same : address = other
    · rw [same, EndpointCache.accepts_put_same room] at accepts
      rw [same]
      exact EndpointCache.accepts_iff.mpr ⟨entry, known, of_decide_eq_true accepts⟩
    · exact EndpointCache.accepts_of_put_other same accepts
  | @visited other content now entry exits _ =>
    have different : address ≠ other := by
      rintro rfl
      exact still content now exits
    exact EndpointCache.accepts_of_put_other different accepts

/-- An operation opens an address if content leaves for it that has a deadline; and at times before zero, if content
leaves for it that was not known. -/
theorem opens_iff (room : 0 < agent.cache.capacity) (closed : agent.cache.accepts address time = false) :
    (agent.after operation).cache.accepts address time = true ↔
    ∃ content now, agent.Exits operation address content now ∧
      ((∃ deadline, agent.deadline? content now = some deadline ∧ time < deadline) ∨
        agent.cache.contains address = false ∧ time < 0) := by
  constructor
  · intro opened
    apply Classical.byContradiction
    intro none
    have still (content : Bytes) (now : Micros) : ¬ agent.Exits operation address content now := by
      intro exits
      refine none ⟨content, now, exits, ?_⟩
      obtain early | deadline := (exits.accepts_iff room).mp opened
      · cases known : agent.cache.contains address with
        | true =>
          rw [EndpointCache.accepts_iff_openUntil.mpr ⟨known, early⟩] at closed
          cases closed
        | false =>
          rw [EndpointCache.openUntil_of_not_contains known] at early
          exact Or.inr ⟨rfl, early⟩
      · exact Or.inl deadline
    rw [accepts_of_after room still opened] at closed
    cases closed
  · rintro ⟨content, now, exits, deadline | ⟨unknown, early⟩⟩
    · exact (exits.accepts_iff room).mpr (Or.inr deadline)
    · refine (exits.accepts_iff room).mpr (Or.inl ?_)
      rw [EndpointCache.openUntil_of_not_contains unknown]
      exact early

end

/-- A packet that is dropped opens an address if it is the queue that drops it, on its way there: for as long as content of
the connection kind opens it, and for times before zero if the address was not known. Any other dropped packet opens none. -/
theorem drop_opens_iff (config : AgentConfig) (operations : List Operation) {operation : Operation} {reason : DropReason}
    (drops : ((fresh config).run operations).outcome? operation = some (.dropped reason)) (address : Address)
    (time : Micros) (closed : ((fresh config).run operations).cache.accepts address time = false) :
    let agent := (fresh config).run operations
    (agent.after operation).cache.accepts address time = true ↔
    (reason = .tooLarge ∨ reason = .queueFull) ∧ ∃ content now, agent.Exits operation address content now ∧
      (ContentKind.ofContent? content = some .connect ∧ time.toInt < now.toInt + config.endpointRetention.toInt ∨
        agent.cache.contains address = false ∧ time.toInt < 0) := by
  intro agent
  have limits : agent.config = config := run_config (fresh config) operations
  obtain ⟨tidy, _⟩ := run_fresh_tidy config operations
  rw [opens_iff tidy.room closed]
  constructor
  · rintro ⟨content, now, exits, opens⟩
    refine ⟨(exits.dropped drops).2, content, now, exits, opens.imp ?_ (And.imp_right Int64.lt_iff_toInt_lt.mp)⟩
    rintro ⟨deadline, has, early⟩
    obtain ⟨connects, sum⟩ := deadline?_eq_some.mp has
    rw [Int64.lt_iff_toInt_lt, Checked.toInt_of_add sum, limits] at early
    exact ⟨connects, early⟩
  · rintro ⟨_, content, now, exits, opens⟩
    refine ⟨content, now, exits, opens.imp ?_ (And.imp_right Int64.lt_iff_toInt_lt.mpr)⟩
    rintro ⟨connects, early⟩
    have range : Checked.InRange (now.toInt + agent.config.endpointRetention.toInt) :=
      Decidable.not_not.mp fun outside => (exits.dropped drops).1 ⟨connects, outside⟩
    have sum : Checked.add now agent.config.endpointRetention = .ok (now + agent.config.endpointRetention) := if_pos range
    refine ⟨_, deadline?_eq_some.mpr ⟨connects, sum⟩, ?_⟩
    rw [Int64.lt_iff_toInt_lt, Checked.toInt_of_add sum, limits]
    exact early

/-- A queue with one place is full after the first packet, and refuses the second. -/
def crowded : Agent := (fresh { queueCapacity := 1 }).run [closedAdd, closedSend 3 [4, 0] 1000000]

private theorem crowded_found :
    crowded.table.find? 1 = some ({ closedExchange { queueCapacity := 1 } with points := 999 }, .outward) := by
  rw [crowded, after_closedSend (by decide) (by decide)]
  rfl

private theorem crowded_config : crowded.config = { queueCapacity := 1 } := run_config _ _

private theorem crowded_exits : crowded.Exits (closedSend 2 [1, 0] 1000000) (Address.ofEndpoint (stranger 2)) [1, 0] 1000000 :=
  exits_numberedSend crowded_found rfl rfl rfl [1, 0] 1000000

private theorem crowded_full : crowded.queue.length = 1 := by
  have found : ((fresh { queueCapacity := 1 }).after closedAdd).table.find? 1 =
      some (closedExchange { queueCapacity := 1 }, .outward) := find?_closedAdd (by decide)
  obtain ⟨packet, size, _, queue⟩ := closedSend_enqueues found rfl rfl 3 rfl [4, 0] 1000000 fun overflows => nomatch overflows.1
  have small : ¬ Datagram.largest < packet.datagram.length := by
    rw [size]
    decide
  rw [crowded, run_pair, queue, enqueue, if_neg small]
  rfl

private theorem crowded_refuses : crowded.outcome? (closedSend 2 [1, 0] 1000000) = some (.dropped .queueFull) := by
  have fits : ¬ crowded.Overflows [1, 0] 1000000 := by
    rw [Overflows, crowded_config]
    decide
  obtain ⟨packet, size, said, _⟩ := closedSend_enqueues crowded_found rfl rfl 2 rfl [1, 0] 1000000 fits
  have small : ¬ Datagram.largest < packet.datagram.length := by
    rw [size]
    decide
  have full : crowded.config.queueCapacity.toNat ≤ crowded.queue.length := by
    rw [crowded_config, crowded_full]
    decide
  rw [said, enqueue, if_neg small, if_pos full]

private theorem crowded_closed (time : Micros) :
    crowded.cache.accepts (Address.ofEndpoint (stranger 2)) time = false := by
  have exits : ((fresh { queueCapacity := 1 }).after closedAdd).Exits (closedSend 3 [4, 0] 1000000)
      (Address.ofEndpoint (stranger 3)) [4, 0] 1000000 := exits_closedSend (by decide) 3 [4, 0] 1000000 rfl
  obtain ⟨endpoint, put⟩ := exits.cache (by decide)
  rw [crowded, run_pair, ← Bool.not_eq_true, put]
  intro accepts
  cases EndpointCache.accepts_of_put_other (by decide) accepts

/-- The queue refuses a connection packet, and its destination may answer for a minute. -/
theorem drop_opens_crowded :
    (crowded.after (closedSend 2 [1, 0] 1000000)).cache.accepts (Address.ofEndpoint (stranger 2)) 60999999 = true ∧
    (crowded.after (closedSend 2 [1, 0] 1000000)).cache.accepts (Address.ofEndpoint (stranger 2)) 61000000 = false := by
  have opens := drop_opens_iff _ _ crowded_refuses (Address.ofEndpoint (stranger 2))
  constructor
  · exact (opens 60999999 (crowded_closed _)).mpr ⟨Or.inr rfl, [1, 0], 1000000, crowded_exits, Or.inl ⟨rfl, by decide⟩⟩
  · rw [← Bool.not_eq_true]
    intro late
    obtain ⟨_, content, now, exits, ⟨_, early⟩ | ⟨_, past⟩⟩ := (opens 61000000 (crowded_closed _)).mp late
    · obtain ⟨_, _, rfl⟩ := exits.unique crowded_exits
      exact absurd early (by decide)
    · exact absurd past (by decide)

/-- The queue refuses a connection packet, and its destination may answer all the same. -/
theorem queueFull_opens :
    crowded.outcome? (closedSend 2 [1, 0] 1000000) = some (.dropped .queueFull) ∧
    crowded.cache.accepts (Address.ofEndpoint (stranger 2)) 1000000 = false ∧
    (crowded.after (closedSend 2 [1, 0] 1000000)).cache.accepts (Address.ofEndpoint (stranger 2)) 1000000 = true := by
  refine ⟨crowded_refuses, crowded_closed _, (crowded_exits.accepts_iff (run_fresh_tidy _ _).1.room).mpr (Or.inr ?_)⟩
  refine ⟨61000000, deadline?_eq_some.mpr ⟨rfl, ?_⟩, by decide⟩
  rw [crowded_config]
  rfl

end Agent
end OnionCircuit
