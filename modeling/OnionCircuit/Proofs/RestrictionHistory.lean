import OnionCircuit.Proofs.AgentHistory

/-! Who may send to the outermost hop of a circuit that lets no stranger in: those that content of the connection kind left
for, for a while, as long as their endpoint is known. -/

namespace OnionCircuit
namespace Agent

section Gate
variable {agent : Agent} {exchange : Exchange} {relayId : RelayId}

theorem letIn_closed (sesami : exchange.allowOpenSesami = false) (unknown : exchange.allowUnknown = false)
    (sender : Address) (content : Bytes) (now : Micros) : (agent.letIn exchange sender content now).2 =
      .ok (if agent.cache.accepts sender now then some exchange else none) := by
  unfold letIn EndpointCache.accepts
  generalize agent.cache.isUnrestricted sender now = answer
  obtain ⟨cache, known⟩ := answer
  cases known with
  | true => rfl
  | false => simp only [sesami, Bool.false_and, Bool.or_self, Bool.false_eq_true, if_false, Exchange.admitUnknown?, unknown]

theorem process_short (named : relayId ≠ 0) {datagram : Bytes} (short : datagram.length < RelayIds.size) (resolve : Resolver)
    (salt : UInt32) (sender : Endpoint) (now : Micros) :
    (agent.process resolve salt sender relayId datagram now).value = .ok (.dropped .malformed) := by
  simp only [process, named, short, if_true, if_false, refuse]

/-- An exchange that is closed to strangers turns away who may not send at the time. -/
theorem process_restricted_iff (found : agent.table.find? relayId = some (exchange, .inward)) (named : relayId ≠ 0)
    (unbound : exchange.outer = none) (sesami : exchange.allowOpenSesami = false) (unknown : exchange.allowUnknown = false)
    (resolve : Resolver) (salt : UInt32) (sender : Endpoint) (datagram : Bytes) (now : Micros) :
    (agent.process resolve salt sender relayId datagram now).value = .ok (.dropped .restricted) ↔
      RelayIds.size ≤ datagram.length ∧ agent.cache.accepts (Address.ofEndpoint sender) now = false := by
  by_cases short : datagram.length < RelayIds.size
  · rw [process_short named short]
    exact ⟨nofun, fun restricted => absurd short (Nat.not_lt.mpr restricted.1)⟩
  · have long := Nat.not_lt.mp short
    rw [agent.process_gate_iff rfl named resolve salt sender now long, agent.screen_unbound found unbound, judge,
      letIn_closed sesami unknown, and_iff_right long]
    cases agent.cache.accepts (Address.ofEndpoint sender) now with
    | true => exact ⟨nofun, nofun⟩
    | false => exact ⟨fun _ => rfl, fun _ => rfl⟩

end Gate

/-- Every endpoint in a cache was put there by content that left for it, and is open until a while after such content, or
not at all. -/
def Explained (past : List (Agent × Operation)) (retention : Micros) (cache : EndpointCache) : Prop :=
  ∀ address entry, cache.get? address = some entry →
    (∃ step ∈ past, ∃ content time, step.1.Exits step.2 address content time) ∧
    (entry.openUntil = 0 ∨ ∃ step ∈ past, ∃ time, step.1.Connects step.2 address time ∧
      entry.openUntil.toInt = time.toInt + retention.toInt)

/-- The addresses whose endpoints the steps of a run touched. -/
def touches (past : List (Agent × Operation)) : List Address := past.filterMap fun step => step.1.touched? step.2

section
variable {agent : Agent} {operation : Operation} {past : List (Agent × Operation)} {retention : Micros} {address : Address}

theorem Explained.mono {cache : EndpointCache} {more : List (Agent × Operation)}
    (explained : Explained past retention cache) (grows : past ⊆ more) : Explained more retention cache := by
  intro address entry known
  obtain ⟨⟨step, was, exits⟩, lasts⟩ := explained address entry known
  exact ⟨⟨step, grows was, exits⟩, lasts.imp_right fun ⟨step, was, connects⟩ => ⟨step, grows was, connects⟩⟩

theorem Explained.put {cache : EndpointCache} {entry : CachedEndpoint} (explained : Explained past retention cache)
    (room : 0 < cache.capacity)
    (left : ∃ step ∈ past, ∃ content time, step.1.Exits step.2 address content time)
    (lasts : entry.openUntil = 0 ∨ ∃ step ∈ past, ∃ time, step.1.Connects step.2 address time ∧
      entry.openUntil.toInt = time.toInt + retention.toInt) : Explained past retention (cache.put address entry) := by
  intro other kept known
  by_cases same : other = address
  · rw [same, EndpointCache.get?_put_same room] at known
    cases known
    rw [same]
    exact ⟨left, lasts⟩
  · exact explained other kept (EndpointCache.get?_put_other same known)

theorem Explained.openUntil {cache : EndpointCache} (explained : Explained past retention cache) (address : Address) :
    cache.openUntil address = 0 ∨ ∃ step ∈ past, ∃ time, step.1.Connects step.2 address time ∧
      (cache.openUntil address).toInt = time.toInt + retention.toInt := by
  unfold EndpointCache.openUntil
  cases known : cache.get? address with
  | none => exact Or.inl rfl
  | some entry => exact (explained address entry known).2

theorem Explained.after (explained : Explained past agent.config.endpointRetention agent.cache)
    (room : 0 < agent.cache.capacity) (operation : Operation) :
    Explained (past ++ [(agent, operation)]) agent.config.endpointRetention (agent.after operation).cache := by
  have before := explained.mono (List.subset_append_left past [(agent, operation)])
  have last : (agent, operation) ∈ past ++ [(agent, operation)] := List.mem_append_right _ List.mem_cons_self
  have touch := agent.after_touch room operation
  generalize (agent.after operation).cache = cache at touch
  cases touch with
  | nothing => exact before
  | seen touched known =>
    obtain ⟨left, lasts⟩ := before _ _ known
    exact before.put room left lasts
  | @visited address content time entry exits lasts =>
    refine before.put room ⟨_, last, content, time, exits⟩ ?_
    cases opens : agent.deadline? content time with
    | none =>
      rw [lasts, opens]
      exact before.openUntil address
    | some deadline =>
      obtain ⟨kind, sum⟩ := deadline?_eq_some.mp opens
      have latest : entry.openUntil = max (agent.cache.openUntil address) deadline := by rw [lasts, opens]; rfl
      rw [latest]
      -- The later of two deadlines is one of them, and each has its connection packet.
      obtain ⟨same, _⟩ | ⟨same, _⟩ := Micros.max_cases (agent.cache.openUntil address) deadline
      · rw [same]
        exact before.openUntil address
      · rw [same]
        exact Or.inr ⟨_, last, time, ⟨content, exits, kind⟩, Checked.toInt_of_add sum⟩

theorem Explained.run (explained : Explained past agent.config.endpointRetention agent.cache) (tidy : agent.cache.Tidy)
    (operations : List Operation) :
    Explained (past ++ agent.history operations) agent.config.endpointRetention (agent.run operations).cache := by
  induction operations generalizing agent past with
  | nil => exact (List.append_nil past).symm ▸ explained
  | cons operation operations ih =>
    have config := agent.after_config operation
    have next := explained.after tidy.room operation
    rw [← config] at next
    have rest := ih next ((agent.after_touch tidy.room operation).tidy tidy).1
    rw [config, List.append_assoc] at rest
    exact rest

theorem Touch.longer {cache : EndpointCache} (touch : agent.Touch operation cache) : cache = agent.cache ∨
    ∃ other entry, agent.touched? operation = some other ∧ agent.cache.openUntil other ≤ entry.openUntil ∧
      cache = agent.cache.put other entry := by
  cases touch with
  | nothing => exact Or.inl rfl
  | seen touched known =>
    exact Or.inr ⟨_, _, touched, Int64.le_of_eq (EndpointCache.openUntil_eq known), rfl⟩
  | @visited other content time entry exits lasts =>
    refine Or.inr ⟨other, entry, exits.touched, ?_, rfl⟩
    rw [lasts]
    cases agent.deadline? content time with
    | none => exact Int64.le_refl _
    | some deadline => exact Micros.le_max_left (agent.cache.openUntil other) deadline

/-- An address that is open until a deadline stays known, and open as long, unless too many others are touched. -/
theorem recent_run {deadline : Micros} {all : List Address} (tidy : agent.cache.Tidy)
    (recent : agent.cache.Recent address all) (opened : deadline ≤ agent.cache.openUntil address)
    (operations : List Operation) (mentioned : touches (agent.history operations) ⊆ all)
    (few : (all.toFinset.erase address).card < agent.cache.capacity) :
    (agent.run operations).cache.Recent address all ∧ deadline ≤ (agent.run operations).cache.openUntil address := by
  -- The addresses are those of the whole run, so that what has already been touched still counts in the rest of it.
  induction operations generalizing agent with
  | nil => exact ⟨recent, opened⟩
  | cons operation operations ih =>
    have touch := agent.after_touch tidy.room operation
    obtain ⟨kept, capacity⟩ := touch.tidy tidy
    have step : (agent.after operation).cache.Recent address all ∧
        deadline ≤ (agent.after operation).cache.openUntil address := by
      obtain same | ⟨other, entry, touched, longer, put⟩ := touch.longer
      · rw [same]
        exact ⟨recent, opened⟩
      · rw [put]
        by_cases again : other = address
        · rw [again] at longer ⊢
          rw [EndpointCache.openUntil_eq (EndpointCache.get?_put_same tidy.room)]
          exact ⟨EndpointCache.recent_put_same tidy.room, Int64.le_trans opened longer⟩
        · have listed : other ∈ all := mentioned (List.mem_filterMap.mpr ⟨_, List.mem_cons_self, touched⟩)
          obtain ⟨still, same⟩ := recent.put tidy again listed few
          refine ⟨still, ?_⟩
          rw [EndpointCache.openUntil, same]
          exact opened
    refine ih kept step.1 step.2 (List.Subset.trans ?_ mentioned) (capacity ▸ few)
    exact (List.Sublist.filterMap _ (List.sublist_cons_self _ _)).subset

private theorem Connects.opens {time : Micros} (connects : agent.Connects operation address time)
    (room : 0 < agent.cache.capacity) (range : Checked.InRange (time.toInt + agent.config.endpointRetention.toInt)) :
    ∃ entry, (agent.after operation).cache = agent.cache.put address entry ∧
      time + agent.config.endpointRetention ≤ entry.openUntil := by
  obtain ⟨content, exits, kind⟩ := connects
  obtain ⟨endpoint, put⟩ := exits.cache room
  rw [deadline?_eq_some.mpr ⟨kind, if_pos range⟩] at put
  exact ⟨_, put, Micros.le_max_right (agent.cache.openUntil address) (time + agent.config.endpointRetention)⟩

/-- Who a connection packet left for may send until its deadline, unless too many others are touched before that. -/
theorem Connects.accepts_run {time now : Micros} (connects : agent.Connects operation address time)
    (tidy : agent.cache.Tidy) (range : Checked.InRange (time.toInt + agent.config.endpointRetention.toInt))
    (early : now.toInt < time.toInt + agent.config.endpointRetention.toInt) (later : List Operation)
    (few : ((touches ((agent.after operation).history later)).toFinset.erase address).card < agent.cache.capacity) :
    ((agent.after operation).run later).cache.accepts address now = true := by
  obtain ⟨entry, put, opened⟩ := connects.opens tidy.room range
  obtain ⟨kept, capacity⟩ := (agent.after_touch tidy.room operation).tidy tidy
  have recent : (agent.after operation).cache.Recent address (touches ((agent.after operation).history later)) := by
    rw [put]
    exact EndpointCache.recent_put_same tidy.room
  rw [← EndpointCache.openUntil_eq (EndpointCache.get?_put_same tidy.room), ← put] at opened
  obtain ⟨recent, lasts⟩ := recent_run kept recent opened later (List.Subset.refl _) (capacity ▸ few)
  obtain ⟨entry, known⟩ := Option.isSome_iff_exists.mp recent.cached
  refine EndpointCache.accepts_iff.mpr ⟨entry, known, ?_⟩
  have sum : Checked.add time agent.config.endpointRetention = .ok (time + agent.config.endpointRetention) := if_pos range
  rw [EndpointCache.openUntil_eq known, Int64.le_iff_toInt_le, Checked.toInt_of_add sum] at lasts
  rw [Int64.lt_iff_toInt_lt]
  exact Int.lt_of_lt_of_le early lasts

/-- A closed exchange lets in who content of the connection kind left for, until a while after it; and whoever content
left for at all, at a time before zero. It does let them in, unless their endpoint was forgotten for those of others. -/
theorem run_restricts (config : AgentConfig) (operations : List Operation) {relayId : RelayId} {exchange : Exchange}
    (found : ((fresh config).run operations).table.find? relayId = some (exchange, .inward))
    (unbound : exchange.outer = none) (sesami : exchange.allowOpenSesami = false) (unknown : exchange.allowUnknown = false)
    (resolve : Resolver) (salt : UInt32) (sender : Endpoint) (datagram : Bytes) (now : Micros) :
    let value := (((fresh config).run operations).process resolve salt sender relayId datagram now).value
    let address := Address.ofEndpoint sender
    let past := (fresh config).history operations
    (value ≠ .ok (.dropped .restricted) →
      datagram.length < RelayIds.size ∧ value = .ok (.dropped .malformed) ∨
      now.toInt < 0 ∧ (∃ step ∈ past, ∃ content time, step.1.Exits step.2 address content time) ∨
      ∃ step ∈ past, ∃ time, step.1.Connects step.2 address time ∧
        now.toInt < time.toInt + config.endpointRetention.toInt) ∧
    ∀ before operation later time, operations = before ++ operation :: later →
      ((fresh config).run before).Connects operation address time →
      Checked.InRange (time.toInt + config.endpointRetention.toInt) →
      now.toInt < time.toInt + config.endpointRetention.toInt →
      ((touches (((fresh config).run (before ++ [operation])).history later)).toFinset.erase address).card <
        config.cacheCapacity.toNat →
      value ≠ .ok (.dropped .restricted) := by
  intro value address past
  have named : relayId ≠ 0 := by
    rintro rfl
    apply (run_fresh_sound config operations).named
    rw [← ExchangeTable.contains_iff_mem_ids, ExchangeTable.contains, found]
    rfl
  have refused := process_restricted_iff found named unbound sesami unknown resolve salt sender datagram now
  constructor
  · intro passes
    by_cases short : datagram.length < RelayIds.size
    · exact Or.inl ⟨short, process_short named short resolve salt sender now⟩
    refine Or.inr ?_
    have accepts : ((fresh config).run operations).cache.accepts address now = true := by
      rw [← Bool.not_eq_false]
      intro closed
      exact passes (refused.mpr ⟨Nat.not_lt.mp short, closed⟩)
    obtain ⟨entry, known, soon⟩ := EndpointCache.accepts_iff.mp accepts
    have empty : Explained [] config.endpointRetention (fresh config).cache := by
      intro address entry known
      cases known
    have explained : Explained past config.endpointRetention ((fresh config).run operations).cache :=
      Explained.run empty (EndpointCache.tidy_empty _) operations
    rw [Int64.lt_iff_toInt_lt] at soon
    obtain ⟨left, closed | ⟨step, was, time, connects, lasts⟩⟩ := explained address entry known
    · rw [closed] at soon
      exact Or.inl ⟨soon, left⟩
    · exact Or.inr ⟨step, was, time, connects, lasts ▸ soon⟩
  · rintro before operation later time rfl connects range early few restricted
    obtain ⟨_, closed⟩ := refused.mp restricted
    obtain ⟨tidy, capacity⟩ := run_fresh_tidy config before
    have same : ((fresh config).run before).config = config := run_config _ before
    have room : config.cacheCapacity.toNat ≤ ((fresh config).run before).cache.capacity := by
      rw [capacity]
      exact Nat.le_max_left _ _
    rw [run_append] at few
    have accepts := connects.accepts_run tidy (same.symm ▸ range) (same.symm ▸ early) later (Nat.lt_of_lt_of_le few room)
    rw [run_append] at closed
    exact Bool.false_ne_true (closed.symm.trans accepts)

end

private theorem found_closed (content : Bytes) :
    ((fresh {}).run [closedAdd, closedSend 2 content 1000000]).table.find? 2 =
      some ({ closedExchange {} with points := 999 }, .inward) := by
  rw [after_closedSend (by decide) (by decide)]
  rfl

private theorem exits_closed (content : Bytes) : ((fresh {}).after closedAdd).Exits (closedSend 2 content 1000000)
    (Address.ofEndpoint (stranger 2)) content 1000000 :=
  exits_closedSend (by decide) 2 content 1000000 rfl

private theorem connects_closed {content : Bytes} {address : Address} {step : Agent × Operation} {time : Micros}
    (was : step ∈ (fresh {}).history [closedAdd, closedSend 2 content 1000000])
    (connects : step.1.Connects step.2 address time) :
    time = 1000000 ∧ ContentKind.ofContent? content = some .connect := by
  obtain ⟨other, exits, kind⟩ := connects
  obtain rfl | rfl : step = (fresh {}, closedAdd) ∨ step = ((fresh {}).after closedAdd, _) := by
    simpa only [history, List.mem_cons, List.not_mem_nil, or_false] using was
  · obtain ⟨_, _, _, _, _, same, _⟩ := exits
    cases same
  · obtain ⟨_, rfl, rfl⟩ := exits.unique (exits_closed content)
    exact ⟨rfl, kind⟩

/-- After a connection packet its destination may answer for a minute. -/
theorem run_restricts_minute :
    let agent := (fresh {}).run [closedAdd, closedSend 2 [1, 0] 1000000]
    let value (now : Micros) := (agent.process (fun _ => none) 0 (stranger 2) 2 (List.replicate 8 0) now).value
    value 60999999 ≠ .ok (.dropped .restricted) ∧ value 61000000 = .ok (.dropped .restricted) := by
  intro agent value
  have restricts := run_restricts {} _ (found_closed [1, 0]) rfl rfl rfl (fun _ => none) 0 (stranger 2) (List.replicate 8 0)
  constructor
  · refine (restricts 60999999).2 [closedAdd] _ [] 1000000 rfl ⟨_, exits_closed _, rfl⟩ (by decide) (by decide) ?_
    decide
  · apply Classical.byContradiction
    intro passes
    obtain ⟨short, _⟩ | ⟨past, _⟩ | ⟨step, was, time, connects, early⟩ := (restricts 61000000).1 passes
    · exact absurd short (by decide)
    · exact absurd past (by decide)
    · obtain ⟨rfl, _⟩ := connects_closed was connects
      exact absurd early (by decide)

/-- An exchange that is closed to strangers does not call a packet restricted, though no connection packet has left for
its sender. -/
def Overlooks (operations : List Operation) (sender : Endpoint) (relayId : RelayId) (datagram : Bytes) (now : Micros) :
    Prop :=
  (∃ exchange, ((fresh {}).run operations).table.find? relayId = some (exchange, .inward) ∧ exchange.outer = none ∧
    exchange.allowOpenSesami = false ∧ exchange.allowUnknown = false) ∧
  (((fresh {}).run operations).process (fun _ => none) 0 sender relayId datagram now).value ≠ .ok (.dropped .restricted) ∧
  ∀ step ∈ (fresh {}).history operations, ∀ time, ¬ step.1.Connects step.2 (Address.ofEndpoint sender) time

/-- What is too short is never looked at, and before the time zero every endpoint that is known is open. -/
theorem run_overlooks :
    Overlooks [closedAdd] (stranger 2) 2 [] 1000000 ∧
    Overlooks [closedAdd, closedSend 2 [4, 0] 1000000] (stranger 2) 2 (List.replicate 8 0) (-1) := by
  constructor
  · refine ⟨⟨_, rfl, rfl, rfl, rfl⟩, by decide, ?_⟩
    intro step was time ⟨_, ⟨_, _, _, _, _, same, _⟩, _⟩
    cases List.mem_singleton.mp was
    cases same
  · refine ⟨⟨_, found_closed [4, 0], rfl, rfl, rfl⟩, ?_, ?_⟩
    · rw [ne_eq, process_restricted_iff (found_closed [4, 0]) (by decide) rfl rfl rfl]
      rintro ⟨_, closed⟩
      have room : 0 < ((fresh {}).after closedAdd).cache.capacity := by decide
      have still : ((fresh {}).after closedAdd).deadline? [4, 0] 1000000 = none := rfl
      have unopened : ((fresh {}).after closedAdd).cache.openUntil (Address.ofEndpoint (stranger 2)) = 0 := rfl
      obtain ⟨endpoint, put⟩ := (exits_closed [4, 0]).cache room
      rw [still, unopened] at put
      rw [run_pair, put, EndpointCache.accepts_put_same room] at closed
      exact absurd (of_decide_eq_false closed) (by decide : ¬ ¬ (-1 : Micros) < 0)
    · intro step was time connects
      cases (connects_closed was connects).2

end Agent
end OnionCircuit
