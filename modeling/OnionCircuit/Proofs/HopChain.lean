import OnionCircuit.Proofs.CallSchedule

/-! The hops of one circuit, which share no id and no address. Hops that were judged together stay apart when some are
cut off, and where a circuit ends tells which of them are left. -/

namespace OnionCircuit

/-- No id of these hops is zero, and no id and no address is used twice. -/
structure Chained (hops : List Hop) : Prop where
  named : 0 ∉ hops.flatMap fun hop => [hop.innerId, hop.outerId]
  distinct : (hops.flatMap fun hop => [hop.innerId, hop.outerId]).Nodup
  apart : (hops.map fun hop => hop.endpoint.socket).Nodup

namespace Chained
variable {hops kept : List Hop}

theorem nil : Chained [] := ⟨List.not_mem_nil, List.nodup_nil, List.nodup_nil⟩

theorem of_prefix (chained : Chained hops) (begins : kept <+: hops) : Chained kept := by
  obtain ⟨rest, rfl⟩ := begins
  obtain ⟨named, distinct, apart⟩ := chained
  rw [List.flatMap_append] at named distinct
  rw [List.map_append] at apart
  exact ⟨fun zero => named (List.mem_append_left _ zero), (List.nodup_append.mp distinct).1, (List.nodup_append.mp apart).1⟩

theorem append {new : Hop} (chained : Chained hops) (named : new.innerId ≠ 0 ∧ new.outerId ≠ 0)
    (different : new.innerId ≠ new.outerId) (away : ∀ hop ∈ hops, hop.endpoint.socket ≠ new.endpoint.socket)
    (fresh : ∀ hop ∈ hops, ∀ id ∈ [hop.innerId, hop.outerId], id ≠ new.innerId ∧ id ≠ new.outerId) :
    Chained (hops ++ [new]) where
  named := by
    rw [List.flatMap_append, List.mem_append]
    rintro (old | zero)
    · exact chained.named old
    · simp only [List.flatMap_cons, List.flatMap_nil, List.append_nil, List.mem_cons, List.not_mem_nil, or_false] at zero
      exact zero.elim (fun same => named.1 same.symm) fun same => named.2 same.symm
  distinct := by
    rw [List.flatMap_append, List.nodup_append]
    refine ⟨chained.distinct, by simpa using different, ?_⟩
    intro id old other new same
    subst same
    obtain ⟨hop, member, own⟩ := List.mem_flatMap.mp old
    obtain ⟨inner, outer⟩ := fresh hop member id own
    simp only [List.flatMap_cons, List.flatMap_nil, List.append_nil, List.mem_cons, List.not_mem_nil, or_false] at new
    exact new.elim inner outer
  apart := by
    rw [List.map_append, List.nodup_append]
    refine ⟨chained.apart, by simp, ?_⟩
    intro socket old other new same
    obtain ⟨hop, member, rfl⟩ := List.mem_map.mp old
    exact away hop member (same.trans (List.mem_singleton.mp new))

/-- Hops that go on behind a shorter circuit do not end where it ends. -/
theorem eq_of_prefix (chained : Chained hops) (begins : kept <+: hops)
    (same : kept.getLast?.map Hop.endpoint = hops.getLast?.map Hop.endpoint) : kept = hops := by
  obtain ⟨rest, rfl⟩ := begins
  cases last : rest.getLast? with
  | none => rw [List.getLast?_eq_none_iff.mp last, List.append_nil]
  | some outermost =>
    -- Then the last hop that is kept would share its address with one that was cut off.
    rw [List.getLast?_append, last, Option.some_or, Option.map_some, Option.map_eq_some_iff] at same
    obtain ⟨hop, ends, same⟩ := same
    have apart := chained.apart
    rw [List.map_append, List.nodup_append] at apart
    have inside := List.mem_map_of_mem (f := fun hop : Hop => hop.endpoint.socket) (List.mem_of_getLast? ends)
    have outside := List.mem_map_of_mem (f := fun hop : Hop => hop.endpoint.socket) (List.mem_of_getLast? last)
    exact absurd (congrArg Endpoint.socket same) (apart.2.2 _ inside _ outside)

end Chained

namespace Circuit

/-- What a circuit of some kind and configuration is at any time: the key is the one for the hops, there are not too
many of them, and they are told apart by their ids and by their addresses. -/
structure Sound (kind : CircuitKind) (config : CircuitConfig) (circuit : Circuit) : Prop where
  key : circuit.key = CircuitKey.ofHops kind circuit.hops
  room : circuit.size ≤ circuit.maxRelays
  chained : Chained circuit.hops
  kind : circuit.kind = kind
  config : circuit.config = config

/-- Nothing but hops at the end is gone from a circuit. -/
def Shortens (circuit after : Circuit) : Prop :=
  after = circuit ∨ ∃ kept, kept <+: circuit.hops ∧ after = circuit.withHops kept

/-- The hop may be added at the end. -/
def MayAdd (circuit : Circuit) (new : Hop) : Prop := circuit.size < circuit.maxRelays ∧ Chained (circuit.hops ++ [new])

/-- The hop could be added behind `last` when it was judged, and since then the circuit has lost hops at most. -/
def Awaits (circuit : Circuit) (last new : Hop) : Prop :=
  ∃ judged, circuit.hops <+: judged ∧ judged.getLast? = some last ∧ judged.length < circuit.maxRelays ∧
    Chained (judged ++ [new])

section
variable {kind : CircuitKind} {config : CircuitConfig} {circuit after : Circuit} {last new : Hop}

theorem Shortens.hops (shortens : circuit.Shortens after) : after.hops <+: circuit.hops := by
  obtain rfl | ⟨kept, begins, rfl⟩ := shortens
  · exact List.prefix_rfl
  · exact begins

theorem Shortens.growing (shortens : circuit.Shortens after) : after.growing = circuit.growing := by
  obtain rfl | ⟨_, _, rfl⟩ := shortens <;> rfl

theorem Shortens.trans {final : Circuit} (first : circuit.Shortens after) (second : after.Shortens final) :
    circuit.Shortens final := by
  obtain rfl | ⟨kept, begins, rfl⟩ := second
  · exact first
  · refine Or.inr ⟨kept, begins.trans first.hops, ?_⟩
    obtain rfl | ⟨_, _, rfl⟩ := first <;> rfl

theorem Sound.shortens (sound : circuit.Sound kind config) (shortens : circuit.Shortens after) :
    after.Sound kind config := by
  obtain rfl | ⟨kept, begins, rfl⟩ := shortens
  · exact sound
  · exact ⟨congrArg (CircuitKey.ofHops · kept) sound.kind, Nat.le_trans begins.length_le sound.room,
      sound.chained.of_prefix begins, sound.kind, sound.config⟩

theorem Sound.growing (sound : circuit.Sound kind config) (growing : Bool) :
    { circuit with growing := growing }.Sound kind config :=
  ⟨sound.key, sound.room, sound.chained, sound.kind, sound.config⟩

theorem Sound.append (sound : circuit.Sound kind config) (addable : circuit.MayAdd new) :
    (circuit.withHops (circuit.hops ++ [new])).Sound kind config where
  key := congrArg (CircuitKey.ofHops · (circuit.hops ++ [new])) sound.kind
  room := by
    change (circuit.hops ++ [new]).length ≤ circuit.maxRelays
    rw [List.length_append]
    exact addable.1
  chained := addable.2
  kind := sound.kind
  config := sound.config

theorem MayAdd.awaits (addable : circuit.MayAdd new) (ends : circuit.hops.getLast? = some last) (growing : Bool) :
    { circuit with growing := growing }.Awaits last new :=
  ⟨circuit.hops, List.prefix_rfl, ends, addable.1, addable.2⟩

theorem Awaits.shortens (awaits : circuit.Awaits last new) (shortens : circuit.Shortens after) : after.Awaits last new := by
  obtain ⟨judged, judged_prefix, ends, room, chained⟩ := awaits
  have limit : after.maxRelays = circuit.maxRelays := by
    obtain rfl | ⟨_, _, rfl⟩ := shortens <;> rfl
  exact ⟨judged, shortens.hops.trans judged_prefix, ends, limit ▸ room, chained⟩

/-- If the circuit still ends with the same hop, then nothing has happened to it. -/
theorem Awaits.unchanged (awaits : circuit.Awaits last new)
    (same : circuit.hops.getLast?.map Hop.endpoint = some last.endpoint) :
    circuit.hops.getLast? = some last ∧ circuit.MayAdd new := by
  obtain ⟨judged, judged_prefix, ends, room, chained⟩ := awaits
  -- What is left begins what was judged and ends where it ended, so nothing was cut off.
  have before := chained.of_prefix (List.prefix_append judged [new])
  obtain rfl := before.eq_of_prefix judged_prefix (by rw [same, ends, Option.map_some])
  exact ⟨ends, room, chained⟩

end

section
variable {circuit : Circuit}

/-- A candidate that is not refused may be added. -/
theorem mayAdd_of_judge (chained : Chained circuit.hops) {candidate : Candidate}
    (judged : circuit.judge candidate.response candidate.link = .success) :
    circuit.MayAdd (Hop.ofAssignment candidate.block candidate.response candidate.link) := by
  unfold judge at judged
  split at judged
  next refused => exact absurd judged refused
  split at judged
  next => cases judged
  next room =>
    split at judged
    next => cases judged
    next named =>
      split at judged
      next => cases judged
      next away =>
        simp only at judged
        split at judged
        next => cases judged
        next fresh =>
          simp only [List.any_eq_true, not_exists, not_and, decide_eq_true_eq] at away
          simp only [not_or, List.any_eq_true, Bool.or_eq_true, List.contains_iff_mem, not_exists, not_and,
            List.mem_cons, List.not_mem_nil, or_false] at fresh named
          refine ⟨Nat.lt_of_not_le room, chained.append named fresh.1 away ?_⟩
          intro hop member id own
          obtain ⟨inner, outer⟩ := fresh.2 hop member
          obtain rfl | rfl : id = hop.innerId ∨ id = hop.outerId := by simpa using own
          · exact inner
          · exact outer

variable (circuit)

/-- A candidate waits for its turn or is refused, or it is the first hop, or the last hop is told about it. -/
theorem join_cases (candidate : Candidate) :
    (circuit.join candidate).circuit = circuit ∧ (∀ last new, (circuit.join candidate).call? ≠ some (.announcing last new)) ∨
    circuit.growing = false ∧ circuit.judge candidate.response candidate.link = .success ∧
      ((circuit.join candidate).call? = none ∧
        (circuit.join candidate).circuit =
          circuit.withHops (circuit.hops ++ [Hop.ofAssignment candidate.block candidate.response candidate.link]) ∧
        circuit.hops = [] ∨
      ∃ last, circuit.hops.getLast? = some last ∧ (circuit.join candidate).circuit = { circuit with growing := true } ∧
        (circuit.join candidate).call? =
          some (.announcing last (Hop.ofAssignment candidate.block candidate.response candidate.link))) := by
  unfold join
  split
  · exact Or.inl ⟨rfl, fun _ _ announcing => nomatch announcing⟩
  next free =>
    simp only
    split
    · exact Or.inl ⟨rfl, fun _ _ announcing => nomatch announcing⟩
    next admitted =>
      have idle : circuit.growing = false := Bool.eq_false_iff.mpr free
      refine Or.inr ⟨idle, Classical.not_not.mp admitted, ?_⟩
      split
      next none =>
        have empty : circuit.hops = [] := List.getLast?_eq_none_iff.mp none
        have settled : { circuit with growing := false } = circuit := by rw [← idle]
        refine Or.inl ?_
        unfold commit
        simp only [settled, none, Option.map_none, if_true]
        exact ⟨rfl, trivial, empty⟩
      next last ends => exact Or.inr ⟨last, ends, rfl, rfl⟩

theorem announced_call (last new : Hop) (answer : Option Verdict) : (circuit.announced last new answer).call? = none := by
  unfold announced
  simp only
  split
  · unfold commit
    simp only
    split <;> rfl
  · rfl
  · rfl

/-- An announced hop joins if the last hop accepts it and is still the last one. Otherwise the hops stay as they are. -/
theorem announced_cases (last new : Hop) (answer : Option Verdict) :
    answer = some .success ∧ circuit.hops.getLast?.map Hop.endpoint = some last.endpoint ∧
      (circuit.announced last new answer).circuit = { circuit with growing := false }.withHops (circuit.hops ++ [new]) ∨
    (circuit.announced last new answer).circuit = { circuit with growing := false } := by
  unfold announced
  simp only
  split
  · unfold commit
    simp only
    split
    next same => exact Or.inl ⟨trivial, same, rfl⟩
    next => exact Or.inr rfl
  · exact Or.inr rfl
  · exact Or.inr rfl

theorem tearDown_shortens (hurried : Bool) (hops : List Hop) : circuit.Shortens (circuit.tearDown hurried hops).circuit := by
  induction hops generalizing circuit with
  | nil => exact Or.inr ⟨[], List.nil_prefix, rfl⟩
  | cons hop inner ih =>
    have cut : circuit.Shortens (circuit.withHops (circuit.hops.take inner.length)) :=
      Or.inr ⟨_, List.take_prefix _ _, rfl⟩
    unfold tearDown
    simp only
    split
    · exact cut.trans (ih _)
    · exact cut

/-- Whatever is closed during a tear down, the circuit was cut before. -/
theorem tearDown_effects (hurried : Bool) (hops : List Hop) {effect : CircuitEffect}
    (member : effect ∈ (circuit.tearDown hurried hops).effects) : circuit.Shortens effect.circuit := by
  induction hops generalizing circuit with
  | nil =>
    obtain rfl := List.mem_singleton.mp member
    exact Or.inr ⟨[], List.nil_prefix, rfl⟩
  | cons hop inner ih =>
    have cut : circuit.Shortens (circuit.withHops (circuit.hops.take inner.length)) :=
      Or.inr ⟨_, List.take_prefix _ _, rfl⟩
    unfold tearDown at member
    simp only at member
    split at member
    · obtain rfl | later := List.mem_cons.mp member
      · exact cut
      · exact cut.trans (ih _ later)
    · obtain rfl := List.mem_singleton.mp member
      exact cut

theorem tearDown_call (hurried : Bool) (hops : List Hop) (last new : Hop) :
    (circuit.tearDown hurried hops).call? ≠ some (.announcing last new) := by
  intro announcing
  have links := circuit.tearDown_links hurried hops new.link
  rw [Turn.newLinks, announcing] at links
  exact links (List.mem_append_right _ (List.mem_singleton_self _))

private theorem commit_effects (last : Option Hop) (new : Hop) {effect : CircuitEffect}
    (member : effect ∈ (circuit.commit last new).effects) : effect.circuit = { circuit with growing := false } := by
  unfold commit at member
  simp only at member
  split at member
  · cases member
  · rw [List.mem_singleton.mp member]

theorem join_effects (candidate : Candidate) {effect : CircuitEffect} (member : effect ∈ (circuit.join candidate).effects) :
    effect.circuit = { circuit with growing := false } := by
  unfold join at member
  split at member
  · cases member
  · simp only at member
    split at member
    · cases member
    · split at member
      · exact circuit.commit_effects none _ member
      · cases member

theorem announced_effects (last new : Hop) (answer : Option Verdict) {effect : CircuitEffect}
    (member : effect ∈ (circuit.announced last new answer).effects) :
    effect.circuit = { circuit with growing := false } := by
  unfold announced at member
  simp only at member
  split at member
  · exact circuit.commit_effects (some last) new member
  · rw [List.mem_singleton.mp member]
  · rw [List.mem_singleton.mp member]

theorem pingNext_effects (answered : Nat) (hops : List Hop) : (circuit.pingNext answered hops).effects = [] := by
  cases hops <;> rfl

theorem pingNext_circuit (answered : Nat) (hops : List Hop) : (circuit.pingNext answered hops).circuit = circuit := by
  cases hops <;> rfl

theorem pingNext_call (answered : Nat) (hops : List Hop) (last new : Hop) :
    (circuit.pingNext answered hops).call? ≠ some (.announcing last new) := by
  cases hops <;> exact fun announcing => nomatch announcing

/-- Only a call that waits for its turn to add a hop can go on waiting for it. -/
theorem resume_joining {call : Call} {wake : Wake} {turn : Turn} (resumed : call.resume circuit wake = some turn)
    {candidate : Candidate} (joining : turn.call? = some (.joining candidate)) : ∃ first, call = .joining first := by
  have adds : candidate.link ∈ turn.newLinks := by
    rw [Turn.newLinks, joining]
    exact List.mem_append_right _ (List.mem_singleton_self _)
  cases call with
  | joining first => exact ⟨first, rfl⟩
  | announcing last new =>
    cases wake <;> cases resumed
    all_goals
      rw [circuit.announced_call] at joining
      cases joining
  | closing hops => cases circuit.resume_links resumed adds
  | pinging hops answered => cases circuit.resume_links resumed adds

end
end Circuit
end OnionCircuit
