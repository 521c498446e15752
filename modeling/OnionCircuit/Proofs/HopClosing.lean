import OnionCircuit.Proofs.CallSchedule
import OnionCircuit.Proofs.Journey

/-! Whether hops that leave a circuit are closed. A tear down works through the hops that it
saw when it began, and cuts off whatever has joined behind them in the meantime. -/

namespace OnionCircuit

/-- What a call gets that adds a hop. -/
def Hop.candidate (hop : Hop) : Candidate where
  block := ⟨hop.key, false, false⟩
  response := ⟨.success, hop.innerId, hop.outerId, none, hop.retention⟩
  link := hop.link

namespace Session
open Circuit (numberedHop)

/-- Every hop that has joined is still there, or was closed, or is going to be, or was overlooked. -/
structure Accounted (session : Session) : Prop where
  traced : ∀ hop ∈ session.joined, hop ∈ session.circuit.hops ∨ hop.link.ref ∈ session.closed ∨
    hop ∈ listed session.calls ∨ hop ∈ session.adrift
  present : ∀ hop ∈ session.circuit.hops, hop ∈ session.joined
  overlooked : ∀ hop ∈ session.adrift, hop ∈ session.joined

/-- As long as nobody joins during a tear down, each tear down still has all hops on its list. -/
structure Orderly (session : Session) : Prop where
  busy : some (.closing []) ∉ session.calls
  lists : ∀ hops, some (.closing hops) ∈ session.calls → session.circuit.hops <+: hops.reverse
  nobody : session.adrift = []

section
variable {session : Session} {turn : Turn} {given : List Hop} {calls : List (Option Call)}

private theorem hops_of_goes (goes : session.Goes turn given calls) {hop : Hop} (member : hop ∈ turn.circuit.hops) :
    hop ∈ session.circuit.hops ∨ turn.newcomer? = some hop := by
  obtain ⟨_, grows⟩ | ⟨cuts, _⟩ := goes.law
  · rw [grows.hops, List.mem_append, Option.mem_toList] at member
    exact member
  · rw [cuts.hops] at member
    exact Or.inl (List.mem_of_mem_take member)

private theorem closes_of_goes (goes : session.Goes turn given calls) {hop : Hop} (member : hop ∈ given) :
    hop.link.ref ∈ turn.closings ∨ hop ∈ listed calls := by
  obtain ⟨nothing, _⟩ | ⟨cuts, _⟩ := goes.law
  · rw [nothing] at member
    cases member
  · refine (cuts.closes hop member).imp_right fun waiting => ?_
    unfold Turn.listed at waiting
    cases left : turn.call? with
    | none => simp [left] at waiting
    | some call =>
      rw [left] at waiting
      exact mem_listed.mpr ⟨call, left ▸ goes.own, waiting⟩

private theorem traced_take {hop : Hop} (member : hop ∈ session.circuit.hops) :
    hop ∈ (session.take turn calls).circuit.hops ∨ hop.link.ref ∈ (session.take turn calls).closed ∨
      hop ∈ listed (session.take turn calls).calls ∨ hop ∈ (session.take turn calls).adrift := by
  by_cases kept : hop ∈ turn.circuit.hops
  · exact Or.inl kept
  · by_cases closing : hop.link.ref ∈ turn.closings
    · exact Or.inr (Or.inl (List.mem_append_right _ closing))
    · by_cases waiting : hop ∈ listed calls
      · exact Or.inr (Or.inr (Or.inl waiting))
      · apply Or.inr ∘ Or.inr ∘ Or.inr
        apply List.mem_append_right
        simp only [List.mem_filter, decide_eq_true_eq]
        exact ⟨member, kept, closing, waiting⟩

private theorem Accounted.take (accounted : session.Accounted) (goes : session.Goes turn given calls) :
    (session.take turn calls).Accounted where
  traced := by
    intro hop member
    obtain before | new := List.mem_append.mp member
    · obtain there | closed | waiting | overlooked := accounted.traced hop before
      · exact traced_take there
      · exact Or.inr (Or.inl (List.mem_append_left _ closed))
      · obtain ⟨call, running, inside⟩ := mem_listed.mp waiting
        obtain still | same := goes.others call running
        · exact Or.inr (Or.inr (Or.inl (mem_listed.mpr ⟨call, still, inside⟩)))
        · obtain closing | waiting := closes_of_goes goes (same ▸ inside)
          · exact Or.inr (Or.inl (List.mem_append_right _ closing))
          · exact Or.inr (Or.inr (Or.inl waiting))
      · exact Or.inr (Or.inr (Or.inr (List.mem_append_left _ overlooked)))
    · have newcomer := Option.mem_toList.mp new
      obtain ⟨_, grows⟩ | ⟨cuts, _⟩ := goes.law
      · apply Or.inl
        change hop ∈ turn.circuit.hops
        rw [grows.hops]
        exact List.mem_append_right _ new
      · cases cuts.nobody.symm.trans newcomer
  present := by
    intro hop member
    obtain before | new := hops_of_goes goes member
    · exact List.mem_append_left _ (accounted.present hop before)
    · exact List.mem_append_right _ (Option.mem_toList.mpr new)
  overlooked := by
    intro hop member
    apply List.mem_append_left
    obtain before | new := List.mem_append.mp member
    · exact accounted.overlooked hop before
    · exact accounted.present hop (List.mem_filter.mp new).1

end

private theorem Accounted.clean {session : Session} (accounted : session.Accounted) : session.clean.Accounted where
  traced := by
    intro hop member
    obtain there | closed | rest := accounted.traced hop member
    · exact ((session.clean_cuts).2 hop there).imp_right Or.inl
    · exact Or.inr (Or.inl (List.mem_append_left _ closed))
    · exact Or.inr (Or.inr rest)
  present := fun hop member => accounted.present hop ((session.clean_cuts).1.subset member)
  overlooked := accounted.overlooked

theorem Reachable.accounted {kind : CircuitKind} {config : CircuitConfig} {session : Session}
    (reached : Reachable kind config session) : session.Accounted := by
  induction reached with
  | start => exact ⟨nofun, nofun, nofun⟩
  | step reached moved ih =>
    obtain ⟨turn, given, calls, goes, rfl⟩ | rfl | ⟨link, rfl⟩ := step?_cases moved
    · exact ih.take goes
    · exact ih.clean
    · refine ⟨?_, ih.present, ih.overlooked⟩
      intro hop member
      exact (ih.traced hop member).imp_right fun rest => rest.imp_left (List.mem_append_left _)

section
variable {session : Session} {turn : Turn} {given : List Hop} {calls : List (Option Call)}

/-- What a tear down works on before a turn of it lists all hops of the circuit. -/
private theorem Orderly.prefix_of_cuts (orderly : session.Orderly)
    (source : given = session.circuit.hops.reverse ∨ some (.closing given) ∈ session.calls) :
    session.circuit.hops <+: given.reverse := by
  obtain rfl | running := source
  · have same := List.reverse_reverse session.circuit.hops
    exact same.symm ▸ List.prefix_rfl
  · exact orderly.lists given running

/-- Whoever joins in a quiet turn joins while nobody is tearing the circuit down. -/
private theorem hops_of_grows (grows : turn.Grows session.circuit) (quiet : (session.take turn calls).crossed = false)
    {hops : List Hop} (some : hops ≠ []) (running : .some (.closing hops) ∈ calls) :
    turn.circuit.hops = session.circuit.hops := by
  have nobody : turn.newcomer? = none := by
    cases hops with
    | nil => contradiction
    | cons hop inner =>
      have inside : hop ∈ listed calls := mem_listed.mpr ⟨_, running, List.mem_cons_self⟩
      have waiting : (listed calls).isEmpty = false := List.isEmpty_eq_false_iff_exists_mem.mpr ⟨hop, inside⟩
      have alone := (Bool.or_eq_false_iff.mp quiet).2
      rw [waiting] at alone
      simpa using alone
  rw [grows.hops, nobody]
  exact List.append_nil _

private theorem Orderly.take (orderly : session.Orderly) (goes : session.Goes turn given calls)
    (quiet : (session.take turn calls).crossed = false) : (session.take turn calls).Orderly where
  busy := by
    intro running
    obtain own | before := goes.known _ running
    · obtain ⟨_, grows⟩ | ⟨cuts, _⟩ := goes.law
      · exact grows.busy own.symm
      · exact cuts.busy own.symm
    · exact orderly.busy before
  lists := by
    intro hops running
    change turn.circuit.hops <+: hops.reverse
    obtain own | before := goes.known _ running
    · have rest : turn.listed = hops := by rw [Turn.listed, ← own]; rfl
      obtain ⟨_, grows⟩ | ⟨cuts, source⟩ := goes.law
      · rw [← rest, grows.nothing] at own
        exact absurd own.symm grows.busy
      · rw [cuts.hops, rest]
        apply List.prefix_of_prefix_length_le ((List.take_prefix _ _).trans (orderly.prefix_of_cuts source))
        · rw [List.reverse_prefix, ← rest]
          exact cuts.rest
        · rw [List.length_take, List.length_reverse]
          exact Nat.min_le_left _ _
    · obtain ⟨_, grows⟩ | ⟨cuts, _⟩ := goes.law
      · rw [hops_of_grows grows quiet (fun none => orderly.busy (none ▸ before)) running]
        exact orderly.lists hops before
      · rw [cuts.hops]
        exact (List.take_prefix _ _).trans (orderly.lists hops before)
  nobody := by
    change session.adrift ++ _ = []
    rw [orderly.nobody, List.nil_append, List.filter_eq_nil_iff]
    intro hop member
    simp only [decide_eq_true_eq]
    rintro ⟨left, unclosed, unlisted⟩
    obtain ⟨_, grows⟩ | ⟨_, source⟩ := goes.law
    · rw [grows.hops] at left
      exact left (List.mem_append_left _ member)
    · have given_of := List.mem_reverse.mp ((orderly.prefix_of_cuts source).subset member)
      exact (closes_of_goes goes given_of).elim unclosed unlisted

end

theorem Reachable.orderly {kind : CircuitKind} {config : CircuitConfig} {session : Session}
    (reached : Reachable kind config session) (quiet : session.crossed = false) : session.Orderly := by
  induction reached with
  | start => exact ⟨nofun, nofun, rfl⟩
  | step reached moved ih =>
    obtain ⟨turn, given, calls, goes, rfl⟩ | rfl | ⟨link, rfl⟩ := step?_cases moved
    · exact (ih (Bool.or_eq_false_iff.mp quiet).1).take goes quiet
    · have orderly := ih quiet
      exact ⟨orderly.busy, fun hops running => ((clean_cuts _).1).trans (orderly.lists hops running), orderly.nobody⟩
    · have orderly := ih quiet
      exact ⟨orderly.busy, orderly.lists, orderly.nobody⟩

/-- Once nobody waits any more, every hop that has joined and is gone was closed, unless a tear down overlooked it and
nobody else has closed it. That can only happen if a hop joins while the circuit is being torn down. -/
theorem left_closed_iff {kind : CircuitKind} {config : CircuitConfig} {session : Session}
    (reached : Reachable kind config session) (idle : session.Idle) :
    ((∀ hop ∈ session.joined, hop ∉ session.circuit.hops → session.isClosed hop.link.ref) ↔
      ∀ hop ∈ session.adrift, hop ∉ session.circuit.hops → session.isClosed hop.link.ref) ∧
    (session.crossed = false → session.adrift = []) := by
  have accounted := reached.accounted
  refine ⟨⟨?_, ?_⟩, fun quiet => (reached.orderly quiet).nobody⟩
  · intro closes hop member
    exact closes hop (accounted.overlooked hop member)
  · intro closes hop member gone
    obtain there | closed | waiting | overlooked := accounted.traced hop member
    · exact absurd there gone
    · exact List.contains_iff_mem.mpr closed
    · obtain ⟨call, running, _⟩ := mem_listed.mp waiting
      cases idle _ running
    · exact closes hop overlooked gone

theorem left_closed_pair : ∃ session, Reachable .outgoing {} session ∧ session.joined = [numberedHop 1, numberedHop 2] ∧
    session.circuit.hops = [] ∧ ∀ hop ∈ session.joined, hop ∉ session.circuit.hops → session.isClosed hop.link.ref := by
  let moves : List Move := [.join (numberedHop 1).candidate, .join (numberedHop 2).candidate, .wake 1 (.setup (some .success)),
    .close, .wake 2 .ready]
  cases ran : (start .outgoing {}).run? moves with
  | none => cases ran
  | some session =>
    have reached : Reachable .outgoing {} session := Reachable.start.run ran
    cases ran
    obtain ⟨closes, _⟩ := left_closed_iff reached (by decide)
    exact ⟨_, reached, rfl, rfl, closes.mpr nofun⟩

/-- A hop that joins while the circuit pauses between two hops that it closes is cut off and stays open. -/
theorem not_left_closed : ¬ ∀ (kind : CircuitKind) (config : CircuitConfig) (session : Session),
    Reachable kind config session → session.Idle →
    ∀ hop ∈ session.joined, hop ∉ session.circuit.hops → session.isClosed hop.link.ref := by
  intro closes
  let moves : List Move := [.join (numberedHop 1).candidate, .join (numberedHop 2).candidate, .wake 1 (.setup (some .success)),
    .close, .join (numberedHop 3).candidate, .wake 3 (.setup (some .success)), .wake 2 .ready]
  cases ran : (start .outgoing {}).run? moves with
  | none => cases ran
  | some session =>
    have reached : Reachable .outgoing {} session := Reachable.start.run ran
    cases ran
    have closed := closes .outgoing {} _ reached (by decide) (numberedHop 3) (by decide) (by decide)
    exact absurd closed (by decide)

end Session
end OnionCircuit
