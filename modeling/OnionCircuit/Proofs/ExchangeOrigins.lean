import OnionCircuit.Proofs.PointBalance

/-! Where every exchange of an agent comes from. An operation opens an exchange, or changes one of those that were there in
one of a few ways; what it does not ask to pay it leaves alone. -/

namespace OnionCircuit

theorem Exchange.spend?_eq {exchange paid : Exchange} {now : Micros} (spends : exchange.spend? now = some paid) :
    paid = { exchange with points := exchange.points - 1, lastAccess := now } := by
  unfold spend? at spends
  split at spends
  · cases spends
  · exact (Option.some.inj spends).symm

namespace Agent

/-- Whether nothing but the rule that admits anyone now and then can let a packet in. -/
def isStrange (agent : Agent) (sender : Endpoint) (relayId : RelayId) (datagram : Bytes) (now : Micros) : Bool :=
  match agent.table.find? relayId with
  | some (exchange, .inward) =>
    exchange.outer.isNone && !agent.knows exchange (Address.ofEndpoint sender) (datagram.drop RelayIds.size) now
  | _ => false

/-- When that rule lets a packet in. -/
def slot? (agent : Agent) : Operation → Option Micros
  | .process _ _ sender relayId datagram now =>
    if agent.passes sender relayId datagram now && agent.isStrange sender relayId datagram now then some now else none
  | _ => none

/-- Where an exchange comes from that is there after an operation. -/
inductive Origin (agent : Agent) (operation : Operation) : Exchange → Prop
  | opened {inner outer : RelayId} {link : Link} {block : AssignBlock} {now : Micros} {words : List UInt32}
    (adds : operation = .add link block now words) (reports : agent.posting operation = .opened inner outer) :
    Origin agent operation (.start inner outer link block agent.config.toAgentLimits now)
  | kept {old : Exchange} (present : old ∈ agent.table.exchanges)
    (spared : ∀ asked ∈ old.standing.ids, agent.asks? operation ≠ some asked) : Origin agent operation old
  | touched {old : Exchange} {now : Micros} (present : old ∈ agent.table.exchanges) (free : agent.asks? operation = none)
    (time : operation.time? = some now) : Origin agent operation (old.touch now)
  | bound {old : Exchange} {now : Micros} (endpoint : Endpoint) (key : TagKey) (present : old ∈ agent.table.exchanges)
    (free : agent.asks? operation = none) (time : operation.time? = some now) :
    Origin agent operation ((old.bind endpoint key).touch now)
  | credited {old : Exchange} (total : Int64) (present : old ∈ agent.table.exchanges) (free : agent.asks? operation = none) :
    Origin agent operation { old with points := total }
  | charged {old paid : Exchange} {asked : RelayId} {now : Micros} (present : old ∈ agent.table.exchanges)
    (asks : agent.asks? operation = some asked) (own : asked ∈ old.standing.ids) (time : operation.time? = some now)
    (spends : { old with lastAdmitted := (agent.slot? operation).getD old.lastAdmitted }.spend? now = some paid) :
    Origin agent operation paid

section
variable {agent : Agent} {operation : Operation} {exchange : Exchange} {relayId : RelayId} {now : Micros}

/-- A packet that passes is charged to its owner, who may note when it was. -/
theorem process_pays {sender : Endpoint} {datagram : Bytes} (passes : agent.passes sender relayId datagram now = true)
    (resolve : Resolver) (salt : UInt32) :
    ∃ (owner : Exchange) (direction : Direction) (guarded : Agent),
      agent.table.find? relayId = some (owner, direction) ∧ guarded.table = agent.table ∧
      let slot := agent.slot? (.process resolve salt sender relayId datagram now)
      let charged := guarded.charge { owner with lastAdmitted := slot.getD owner.lastAdmitted } now
      let done := agent.process resolve salt sender relayId datagram now
      done.agent.table = charged.agent.table ∧ ∀ link, .close link ∈ done.effects ↔ .close link ∈ charged.effects := by
  obtain ⟨named, long, admits⟩ := of_decide_eq_true passes
  have accepts : ∃ accepted, (agent.screen sender relayId (datagram.drop RelayIds.size) now).value = .ok (.ok accepted) := by
    have screened := agent.screen_screened sender relayId (datagram.drop RelayIds.size) now
    rw [admits] at screened
    generalize agent.screen sender relayId (datagram.drop RelayIds.size) now = done at screened
    cases screened with
    | admitted => exact ⟨_, rfl⟩
  obtain ⟨accepted, accepts⟩ := accepts
  have untimed (stays : agent.isStrange sender relayId datagram now = false) :
      agent.slot? (.process resolve salt sender relayId datagram now) = none := by
    simp only [slot?, stays, Bool.and_false, Bool.false_eq_true, if_false]
  have gate := agent.screen_gate sender relayId (datagram.drop RelayIds.size) now
  generalize screened : agent.screen sender relayId (datagram.drop RelayIds.size) now = done at gate accepts
  cases gate with
  | nobody | foreign | excluded | restricted | fault => cases accepts
  | client found =>
    refine ⟨_, _, agent, found, rfl, ?_⟩
    rw [untimed (by simp only [isStrange, found])]
    exact process_accept named long screened resolve salt
  | neighbour found bound =>
    refine ⟨_, _, agent, found, rfl, ?_⟩
    rw [untimed (by simp only [isStrange, found, bound, Option.isNone_some, Bool.false_and])]
    exact process_accept named long screened resolve salt
  | known found free knows =>
    refine ⟨_, _, agent.looked (Address.ofEndpoint sender) now, found, rfl, ?_⟩
    rw [untimed (by simp only [isStrange, found, knows, Bool.not_true, Bool.and_false])]
    exact process_accept named long screened resolve salt
  | newcomer found free unknown admitted =>
    have strange : agent.isStrange sender relayId datagram now = true := by
      simp only [isStrange, found, free, unknown, Option.isNone_none, Bool.not_false, Bool.and_self]
    refine ⟨_, _, agent.looked (Address.ofEndpoint sender) now, found, rfl, ?_⟩
    simp only [slot?, passes, strange, Bool.and_self, if_true, Option.getD_some]
    rw [admitUnknown?_exchange admitted] at screened
    exact process_accept named long screened resolve salt

theorem slot?_time {time : Micros} (takes : agent.slot? operation = some time) : operation.time? = some time := by
  cases operation with
  | process resolve salt sender relayId datagram now =>
    simp only [slot?] at takes
    split at takes
    · exact takes
    · cases takes
  | _ => cases takes

theorem mem_charge {newer : Exchange} (member : exchange ∈ (agent.charge newer now).agent.table.exchanges) :
    newer.spend? now = some exchange ∨ exchange ∈ agent.table.exchanges ∧ exchange.innerId ≠ newer.innerId := by
  obtain ⟨broke, _⟩ | ⟨paid, pays, _, less⟩ := newer.spend?_cases now
  · simp only [charge, broke, drop] at member
    exact Or.inr (ExchangeTable.mem_erase.mp member)
  · simp only [charge, pays] at member
    obtain rfl | ⟨old, different⟩ := ExchangeTable.mem_replace member
    · exact Or.inl pays
    · rw [show paid.innerId = newer.innerId from congrArg Standing.innerId less] at different
      exact Or.inr ⟨old, different⟩

private theorem origin_charged (sound : agent.table.Sound) {owner : Exchange} {guarded : Agent} {asked : RelayId}
    (present : owner ∈ agent.table.exchanges) (own : asked ∈ owner.standing.ids) (same : guarded.table = agent.table)
    (asks : agent.asks? operation = some asked) (time : operation.time? = some now)
    (member : exchange ∈ (guarded.charge { owner with lastAdmitted := (agent.slot? operation).getD owner.lastAdmitted }
      now).agent.table.exchanges) : agent.Origin operation exchange := by
  obtain spends | ⟨old, different⟩ := mem_charge member
  · exact .charged present asks own time spends
  · rw [same] at old
    refine .kept old fun other also asksOther => ?_
    cases asks.symm.trans asksOther
    obtain rfl := sound.eq_of_shared old present also own
    exact different rfl

theorem after_origin (sound : agent.table.Sound) (operation : Operation)
    (member : exchange ∈ (agent.after operation).table.exchanges) : agent.Origin operation exchange := by
  have keeps (free : agent.asks? operation = none) (present : exchange ∈ agent.table.exchanges) :
      agent.Origin operation exchange := .kept present fun asked _ => by rw [free]; nofun
  cases operation with
  | add link block now words =>
    cases added : agent.addExchange? link block now words with
    | none =>
      simp only [after, added] at member
      exact keeps rfl member
    | some done =>
      obtain ⟨next, result, rest⟩ := done
      simp only [after, added] at member
      obtain ⟨rfl, _⟩ | ⟨inner, outer, rfl, _, _, _, _, _, rfl⟩ := addExchange?_cases added
      · exact keeps rfl member
      · obtain old | new := List.mem_append.mp member
        · exact keeps rfl old
        · cases List.mem_singleton.mp new
          exact .opened rfl (by simp only [posting_add, added])
  | setup connectionId block now =>
    obtain ⟨_, same⟩ | ⟨_, old, owned, table⟩ := agent.setup_cases connectionId block now
    · rw [after, same] at member
      exact keeps rfl member
    · rw [after, table] at member
      obtain rfl | ⟨present, _⟩ := ExchangeTable.mem_replace member
      · exact .bound _ _ (mem_of_owned? owned).1 rfl rfl
      · exact keeps rfl present
  | ping connectionId innerId now =>
    simp only [after, ping] at member
    split at member
    next old owned =>
      obtain rfl | ⟨present, _⟩ := ExchangeTable.mem_replace member
      · exact .touched (mem_of_owned? owned).1 rfl rfl
      · exact keeps rfl present
    next => exact keeps rfl member
  | credit relayId points =>
    cases adds : agent.addPoints relayId points with
    | error fault =>
      simp only [after, adds] at member
      exact keeps rfl member
    | ok done =>
      obtain ⟨next, credited⟩ := done
      simp only [after, adds] at member
      obtain rfl | ⟨old, total, present, rfl⟩ := addPoints_cases adds
      · exact keeps rfl member
      · obtain rfl | ⟨other, _⟩ := ExchangeTable.mem_replace member
        · exact .credited total present rfl
        · exact keeps rfl other
  | decrement relayId now =>
    cases got : agent.table.get? relayId with
    | none =>
      simp only [after, decrement, got] at member
      refine .kept member fun asked own asks => ?_
      cases asks
      exact ExchangeTable.unowned_of_get? got (List.mem_map_of_mem member) own
    | some owner =>
      simp only [after, decrement, got] at member
      obtain ⟨present, own⟩ := ExchangeTable.owned_of_get? got
      exact origin_charged sound present own rfl rfl rfl member
  | remove relayId =>
    simp only [after, remove] at member
    split at member
    next => exact keeps rfl (ExchangeTable.mem_erase.mp member).1
    next => exact keeps rfl member
  | clean isClosed now =>
    cases cleaned : agent.clean isClosed now with
    | error fault =>
      simp only [after, cleaned] at member
      exact keeps rfl member
    | ok done =>
      obtain ⟨gone, rest⟩ := clean_cases cleaned
      simp only [after, cleaned, Except.toOption, Option.map_some, Option.getD_some, rest] at member
      exact keeps rfl (ExchangeTable.mem_of_mem_foldl_erase member)
  | process resolve salt sender relayId datagram now =>
    cases passes : agent.passes sender relayId datagram now with
    | false =>
      rw [after, (process_refused passes resolve salt).1] at member
      exact keeps (by simp only [asks?, passes, Bool.false_eq_true, if_false]) member
    | true =>
      obtain ⟨owner, direction, guarded, found, same, done, _⟩ := process_pays passes resolve salt
      obtain ⟨present, own⟩ := ExchangeTable.owned_of_find? found
      rw [after, done] at member
      exact origin_charged sound present own same (by simp only [asks?, passes, if_true]) rfl member
  | next =>
    have same : (agent.after .next).table = agent.table := by
      simp only [after, next?]
      split <;> rfl
    exact keeps rfl (same ▸ member)
  | drain => exact keeps rfl member

end
end Agent
end OnionCircuit
