import Mathlib.Data.List.TakeWhile
import OnionCircuit.Proofs.CallSchedule
import OnionCircuit.Proofs.Journey

/-! Cutting a circuit in front of its first dead hop. What is behind a dead hop cannot be reached any more, so it goes too,
alive or not, and all that goes is closed. -/

namespace OnionCircuit
namespace Circuit

section
variable (circuit : Circuit) (isClosed : LinkRef → Bool)

/-- The hops that a clean keeps. -/
def reachable : List Hop := circuit.hops.takeWhile fun hop => !isClosed hop.link.ref

/-- The hops that a clean removes. -/
def unreachable : List Hop := circuit.hops.dropWhile fun hop => !isClosed hop.link.ref

theorem reachable_append_unreachable : circuit.reachable isClosed ++ circuit.unreachable isClosed = circuit.hops :=
  List.takeWhile_append_dropWhile

variable {circuit isClosed}

theorem alive_of_reachable {hop : Hop} (kept : hop ∈ circuit.reachable isClosed) : isClosed hop.link.ref = false := by
  have alive := List.mem_takeWhile_imp kept
  rwa [Bool.not_eq_true'] at alive

theorem unreachable_eq_nil_iff : circuit.unreachable isClosed = [] ↔ ∀ hop ∈ circuit.hops, isClosed hop.link.ref = false := by
  rw [unreachable, List.dropWhile_eq_nil_iff]
  simp only [Bool.not_eq_true']

/-- No longer part of the circuit from its start on is alive. -/
theorem prefix_reachable_iff {front : List Hop} :
    front <+: circuit.hops ∧ (∀ hop ∈ front, isClosed hop.link.ref = false) ↔ front <+: circuit.reachable isClosed := by
  constructor
  · rintro ⟨⟨rest, whole⟩, alive⟩
    have all : ∀ hop ∈ front, (!isClosed hop.link.ref) = true := by
      intro hop member
      rw [alive hop member]
      rfl
    rw [reachable, ← whole, List.takeWhile_append_of_pos all]
    exact List.prefix_append _ _
  · intro begins
    refine ⟨begins.trans (List.takeWhile_prefix _), fun hop member => ?_⟩
    exact alive_of_reachable (begins.subset member)

theorem clean_alive (alive : ∀ hop ∈ circuit.hops, isClosed hop.link.ref = false) : circuit.clean isClosed = (circuit, [], 0) := by
  have none : circuit.unreachable isClosed = [] := unreachable_eq_nil_iff.mpr alive
  rw [unreachable] at none
  simp only [clean, none, List.isEmpty_nil, if_true]

theorem clean_dead (dead : ∃ hop ∈ circuit.hops, isClosed hop.link.ref = true) :
    let cut := circuit.withHops (circuit.reachable isClosed)
    circuit.clean isClosed = (cut, (circuit.unreachable isClosed).map fun hop => ⟨.closeLink hop.link.ref, cut⟩,
      (circuit.unreachable isClosed).length) := by
  have some : (circuit.unreachable isClosed).isEmpty = false := by
    rw [List.isEmpty_eq_false_iff, ne_eq, unreachable_eq_nil_iff]
    intro alive
    obtain ⟨hop, member, closed⟩ := dead
    exact Bool.false_ne_true ((alive hop member).symm.trans closed)
  rw [unreachable] at some
  simp only [clean, some, Bool.false_eq_true, if_false, reachable, unreachable]

theorem clean_hops : (circuit.clean isClosed).1.hops = circuit.reachable isClosed := by
  by_cases dead : ∃ hop ∈ circuit.hops, isClosed hop.link.ref = true
  · rw [clean_dead dead]
    rfl
  · have alive : ∀ hop ∈ circuit.hops, isClosed hop.link.ref = false := by simpa using dead
    have whole := circuit.reachable_append_unreachable isClosed
    rw [unreachable_eq_nil_iff.mpr alive, List.append_nil] at whole
    rw [clean_alive alive, whole]

theorem clean_closings : (circuit.clean isClosed).2.1.filterMap CircuitEffect.closed? =
    (circuit.unreachable isClosed).map fun hop => hop.link.ref := by
  by_cases dead : ∃ hop ∈ circuit.hops, isClosed hop.link.ref = true
  · rw [clean_dead dead]
    simp only [List.filterMap_map]
    rw [← List.filterMap_eq_map]
    rfl
  · have alive : ∀ hop ∈ circuit.hops, isClosed hop.link.ref = false := by simpa using dead
    rw [clean_alive alive, unreachable_eq_nil_iff.mpr alive]
    rfl

end

/-- A clean keeps the hops in front of the first dead one, publishes the key for them, and counts and closes the others.
Without a dead hop it does nothing, and neither does a second clean where the first has closed no link of a hop that
is left. -/
theorem cut_at_first_dead (circuit : Circuit) (isClosed : LinkRef → Bool) :
    let alive (hop : Hop) : Prop := isClosed hop.link.ref = false
    let cleaned := circuit.clean isClosed
    let closings := cleaned.2.1.filterMap CircuitEffect.closed?
    ∃ kept removed, circuit.hops = kept ++ removed ∧
      (∀ front, front <+: circuit.hops ∧ (∀ hop ∈ front, alive hop) ↔ front <+: kept) ∧
      ((∀ hop ∈ circuit.hops, alive hop) → cleaned = (circuit, [], 0)) ∧
      ((∃ hop ∈ circuit.hops, ¬ alive hop) →
        let cut := circuit.withHops kept
        cut.hops = kept ∧ cut.key = CircuitKey.ofHops circuit.kind kept ∧
        cleaned = (cut, removed.map fun hop => ⟨.closeLink hop.link.ref, cut⟩, removed.length)) ∧
      ((circuit.hops.map fun hop => hop.link.ref).Nodup →
        cleaned.1.clean (fun link => isClosed link || link ∈ closings) = (cleaned.1, [], 0)) := by
  intro alive cleaned closings
  refine ⟨_, _, (circuit.reachable_append_unreachable isClosed).symm, fun front => prefix_reachable_iff, clean_alive, ?_, ?_⟩
  · rintro ⟨hop, member, dead⟩
    exact ⟨rfl, rfl, clean_dead ⟨hop, member, (Bool.not_eq_false _).mp dead⟩⟩
  · intro apart
    apply clean_alive
    intro hop kept
    rw [clean_hops] at kept
    rw [alive_of_reachable kept, Bool.false_or, decide_eq_false_iff_not]
    intro closes
    rw [← circuit.reachable_append_unreachable isClosed, List.map_append, List.nodup_append] at apart
    have gone : closings = (circuit.unreachable isClosed).map fun hop => hop.link.ref := clean_closings
    rw [gone] at closes
    exact apart.2.2 _ (List.mem_map_of_mem kept) _ closes rfl

/-- The second of three hops is dead and takes the third one with it. -/
theorem cut_at_first_dead_middle :
    let circuit := (start .outgoing {}).withHops [numberedHop 1, numberedHop 2, numberedHop 3]
    let cut := circuit.withHops [numberedHop 1]
    let cleaned := circuit.clean (· = 2)
    cleaned = (cut, [⟨.closeLink 2, cut⟩, ⟨.closeLink 3, cut⟩], 2) ∧
      cleaned.1.clean (fun link => link = 2 || link ∈ [2, 3]) = (cut, [], 0) := by
  intro circuit cut cleaned
  obtain ⟨kept, removed, whole, longest, _, dead, again⟩ := circuit.cut_at_first_dead (· = 2)
  have first : kept = [numberedHop 1] := by
    obtain ⟨rest, rfl⟩ : [numberedHop 1] <+: kept := (longest _).mp ⟨by decide, by decide⟩
    cases rest with
    | nil => rfl
    | cons second rest =>
      have same : some (numberedHop 2) = some second := congrArg (fun hops : List Hop => hops[1]?) whole
      cases same
      obtain ⟨_, alive⟩ := (longest _).mpr List.prefix_rfl
      exact absurd (alive (numberedHop 2) (by simp)) (by decide)
  subst first
  cases whole
  obtain ⟨_, _, cleans⟩ := dead ⟨numberedHop 2, by decide, by decide⟩
  exact ⟨cleans, again (by decide)⟩

end Circuit
end OnionCircuit
