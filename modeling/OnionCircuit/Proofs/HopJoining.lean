import OnionCircuit.Proofs.HopClosing

/-! Adding a hop while nothing else happens to the circuit. Either the hop joins behind the last one, which was told about it,
or the circuit is what it was and the link to the new hop is closed. A hop that is refused is not heard of anywhere. -/

namespace OnionCircuit

/-- Why a hop may not join. -/
inductive Objection
  | refused
  | crowded
  | unnamed
  | sameAddress
  | sameId
deriving DecidableEq

namespace Objection

def verdict (response : AssignResponse) : Objection → Verdict
  | .refused => response.verdict
  | .crowded => .serialRelayLimit
  | .unnamed => .invalidEndpoint
  | .sameAddress => .duplicateEndpoint
  | .sameId => .duplicateRelayId

def Holds (circuit : Circuit) (response : AssignResponse) (link : Link) : Objection → Prop
  | .refused => response.verdict ≠ .success
  | .crowded => circuit.maxRelays ≤ circuit.hops.length
  | .unnamed => response.innerId = 0 ∨ response.outerId = 0
  | .sameAddress => ∃ hop ∈ circuit.hops, hop.endpoint.socket = (response.address.getD link.address).socket
  | .sameId => response.innerId = response.outerId ∨ ∃ hop ∈ circuit.hops,
    hop.innerId ∈ [response.innerId, response.outerId] ∨ hop.outerId ∈ [response.innerId, response.outerId]

instance (circuit : Circuit) (response : AssignResponse) (link : Link) :
    DecidablePred (Holds circuit response link)
  | .refused => inferInstanceAs (Decidable (_ ≠ _))
  | .crowded => inferInstanceAs (Decidable (_ ≤ _))
  | .unnamed => inferInstanceAs (Decidable (_ ∨ _))
  | .sameAddress => inferInstanceAs (Decidable (∃ hop ∈ circuit.hops, _ = _))
  | .sameId => inferInstanceAs (Decidable (_ ∨ ∃ hop ∈ circuit.hops, _ ∨ _))

/-- What is said of a hop that is judged by some objections, the first of which counts. -/
def judge (circuit : Circuit) (response : AssignResponse) (link : Link) (objections : List Objection) : Verdict :=
  ((objections.find? (Holds circuit response link)).map (verdict response)).getD .success

theorem judge_cons (circuit : Circuit) (response : AssignResponse) (link : Link) (objection : Objection)
    (others : List Objection) :
    judge circuit response link (objection :: others) =
      if Holds circuit response link objection then objection.verdict response
      else judge circuit response link others := by
  unfold judge
  rw [List.find?_cons]
  by_cases holds : Holds circuit response link objection
  · simp only [holds, decide_true, Option.map_some, Option.getD_some, if_true]
  · simp only [holds, decide_false, if_false]

end Objection

/-- A call that has returned: what the circuit is then, whom it has told about the hop, and what was done and said. -/
structure Addition where
  circuit : Circuit
  told : List (Link × SetupBlock)
  effects : List CircuitEffect
  verdict : Verdict
deriving DecidableEq

namespace Circuit
variable {circuit : Circuit} {candidate : Candidate}

/-- Adds a hop without a turn of any other call in between. -/
def addAlone? (circuit : Circuit) (answer : Link → SetupBlock → Option Verdict) (candidate : Candidate) : Option Addition :=
  let first := circuit.join candidate
  match first.next with
  | .returned (.joined verdict) => some ⟨first.circuit, [], first.effects, verdict⟩
  | .waiting (.setup link block) call => do
    let second ← call.resume first.circuit (.setup (answer link block))
    match second.next with
    | .returned (.joined verdict) => some ⟨second.circuit, [(link, block)], first.effects ++ second.effects, verdict⟩
    | _ => none
  | _ => none

theorem judge_eq (circuit : Circuit) (response : AssignResponse) (link : Link) :
    circuit.judge response link =
      Objection.judge circuit response link [.refused, .crowded, .unnamed, .sameAddress, .sameId] := by
  have address : (circuit.hops.any fun hop => hop.endpoint.socket = (Hop.locate response link).socket) = true ↔
      Objection.Holds circuit response link .sameAddress := by
    simp only [List.any_eq_true, decide_eq_true_eq]
    rfl
  have id : (response.innerId = response.outerId ∨ (circuit.hops.any fun hop =>
      [response.innerId, response.outerId].contains hop.innerId ||
        [response.innerId, response.outerId].contains hop.outerId) = true) ↔
      Objection.Holds circuit response link .sameId := by
    simp only [List.any_eq_true, Bool.or_eq_true, List.contains_iff_mem]
    rfl
  simp only [judge, address, id, Objection.judge_cons]
  rfl

theorem commit_unchanged {last : Option Hop} (unchanged : circuit.hops.getLast? = last) (new : Hop) :
    circuit.commit last new =
      ⟨{ circuit with growing := false }.withHops (circuit.hops ++ [new]), [], .returned (.joined .success)⟩ := by
  simp only [commit, unchanged, if_true]

section
variable (idle : circuit.growing = false)
include idle

theorem addAlone?_refused (answer : Link → SetupBlock → Option Verdict)
    (refused : circuit.judge candidate.response candidate.link ≠ .success) :
    circuit.addAlone? answer candidate =
      some ⟨circuit, [], [], circuit.judge candidate.response candidate.link⟩ := by
  simp only [addAlone?, join, idle, Bool.false_eq_true, if_false, refused, ne_eq, not_false_eq_true, if_true]

variable (admitted : circuit.judge candidate.response candidate.link = .success)
include admitted

theorem addAlone?_first (answer : Link → SetupBlock → Option Verdict) (first : circuit.hops = []) :
    circuit.addAlone? answer candidate =
      some ⟨circuit.withHops [Hop.ofAssignment candidate.block candidate.response candidate.link], [], [], .success⟩ := by
  have settled : { circuit with growing := false } = circuit := by rw [← idle]
  have empty : circuit.hops.getLast? = none := by rw [first, List.getLast?_nil]
  have joins : circuit.join candidate = circuit.commit none
      (Hop.ofAssignment candidate.block candidate.response candidate.link) := by
    simp only [join, idle, Bool.false_eq_true, if_false, admitted, ne_eq, not_true_eq_false, empty]
  rw [commit_unchanged empty, settled, first, List.nil_append] at joins
  simp only [addAlone?, joins]

theorem addAlone?_told (answer : Link → SetupBlock → Option Verdict) {last : Hop}
    (ends : circuit.hops.getLast? = some last) :
    let new := Hop.ofAssignment candidate.block candidate.response candidate.link
    let block : SetupBlock := ⟨last.innerId, new.endpoint, new.key⟩
    circuit.addAlone? answer candidate = some (match answer last.link block with
      | some .success => ⟨circuit.withHops (circuit.hops ++ [new]), [(last.link, block)], [], .success⟩
      | some _ => ⟨circuit, [(last.link, block)], [⟨.closeLink new.link.ref, circuit⟩], .invalidEndpoint⟩
      | none => ⟨circuit, [(last.link, block)], [⟨.closeLink new.link.ref, circuit⟩], .connectionFailure⟩) := by
  intro new block
  have settled : { circuit with growing := false } = circuit := by rw [← idle]
  have joins : circuit.join candidate =
      ⟨{ circuit with growing := true }, [], .waiting (.setup last.link block) (.announcing last new)⟩ := by
    simp only [join, idle, Bool.false_eq_true, if_false, admitted, ne_eq, not_true_eq_false, ends]
    rfl
  simp only [addAlone?, joins, Call.resume, Option.bind_eq_bind, Option.bind_some, announced]
  cases answer last.link block with
  | none => simp only [settled, List.nil_append]
  | some verdict =>
    cases verdict with
    | success =>
      have unchanged : { circuit with growing := true }.hops.getLast? = some last := ends
      simp only [commit_unchanged unchanged, settled, List.nil_append]
    | _ => simp only [settled, List.nil_append]

end

/-- A hop that nothing comes in between is added as it was judged, or nothing is changed. The circuit says what the first
objection says; without one it tells the last hop, if there is one, and goes by its answer. -/
theorem add_all_or_nothing (circuit : Circuit) (candidate : Candidate) (answer : Link → SetupBlock → Option Verdict) :
    let judged := circuit.judge candidate.response candidate.link
    let new := Hop.ofAssignment candidate.block candidate.response candidate.link
    let grown := circuit.withHops (circuit.hops ++ [new])
    let closing : List CircuitEffect := [⟨.closeLink candidate.link.ref, circuit⟩]
    judged = Objection.judge circuit candidate.response candidate.link
      [.refused, .crowded, .unnamed, .sameAddress, .sameId] ∧
    (circuit.growing = false →
      (judged ≠ .success → circuit.addAlone? answer candidate = some ⟨circuit, [], [], judged⟩) ∧
      (judged = .success → circuit.hops = [] →
        circuit.addAlone? answer candidate = some ⟨grown, [], [], .success⟩) ∧
      (judged = .success → ∀ last, circuit.hops.getLast? = some last →
        let block : SetupBlock := ⟨last.innerId, new.endpoint, new.key⟩
        circuit.addAlone? answer candidate = some (match answer last.link block with
          | some .success => ⟨grown, [(last.link, block)], [], .success⟩
          | some _ => ⟨circuit, [(last.link, block)], closing, .invalidEndpoint⟩
          | none => ⟨circuit, [(last.link, block)], closing, .connectionFailure⟩))) := by
  intro judged new grown closing
  refine ⟨judge_eq circuit candidate.response candidate.link, ?_⟩
  intro idle
  refine ⟨addAlone?_refused idle answer, ?_, ?_⟩
  · intro admitted first
    simp only [grown, first]
    exact addAlone?_first idle admitted answer first
  · intro admitted last ends
    exact addAlone?_told idle admitted answer ends

/-- The last of two hops does not answer, so a third one is closed. -/
theorem add_nothing_unanswered :
    let circuit := (start .outgoing {}).withHops [numberedHop 1, numberedHop 2]
    let candidate := (numberedHop 3).candidate
    circuit.growing = false ∧ circuit.judge candidate.response candidate.link = .success ∧
      circuit.hops.getLast? = some (numberedHop 2) ∧
      circuit.addAlone? (fun _ _ => none) candidate =
        some ⟨circuit, [((numberedHop 2).link, ⟨2, (numberedHop 3).endpoint, (numberedHop 3).key⟩)],
          [⟨.closeLink 3, circuit⟩], .connectionFailure⟩ := by
  intro circuit candidate
  have judged : circuit.judge candidate.response candidate.link = .success := by decide
  obtain ⟨_, alone⟩ := circuit.add_all_or_nothing candidate fun _ _ => none
  obtain ⟨_, _, told⟩ := alone rfl
  exact ⟨rfl, judged, rfl, told judged (numberedHop 2) rfl⟩

end Circuit
end OnionCircuit
