import Mathlib.Data.List.Nodup
import Mathlib.Data.List.Pairwise
import OnionCircuit.Proofs.ExchangeLedger

/-! Which ids an agent knows. An exchange is live from when it was added until it is gone, however it goes; the ids of the
live exchanges are all different, and they are what the agent knows. -/

namespace OnionCircuit

def Account.idFor (account : Account) : Direction → RelayId
  | .outward => account.innerId
  | .inward => account.outerId

namespace Ledger

/-- The ids of the live exchanges, two for each. -/
def ids (ledger : Ledger) : List RelayId := ledger.live.flatMap Account.ids

/-- Exactly one live exchange has an id. -/
def Knows (ledger : Ledger) (relayId : RelayId) : Prop := ∃! account, account ∈ ledger.live ∧ relayId ∈ account.ids

/-- Exactly one live exchange has an id for packets that go in a direction. -/
def Leads (ledger : Ledger) (relayId : RelayId) (direction : Direction) : Prop :=
  ∃! account, account ∈ ledger.live ∧ relayId = account.idFor direction

variable {ledger : Ledger} {relayId : RelayId}

private theorem eq_of_shared (distinct : ledger.ids.Nodup) {one two : Account} (first : one ∈ ledger.live)
    (second : two ∈ ledger.live) (own : relayId ∈ one.ids) (also : relayId ∈ two.ids) : one = two := by
  by_contra different
  have : Std.Symm (Function.onFun List.Disjoint Account.ids) := ⟨fun _ _ apart _ one two => apart two one⟩
  have apart := (List.nodup_flatMap.mp distinct).2.forall first second different
  exact apart own also

theorem knows_iff (distinct : ledger.ids.Nodup) : ledger.Knows relayId ↔ relayId ∈ ledger.ids := by
  constructor
  · rintro ⟨account, ⟨member, own⟩, _⟩
    exact List.mem_flatMap.mpr ⟨account, member, own⟩
  · intro known
    obtain ⟨account, member, own⟩ := List.mem_flatMap.mp known
    exact ⟨account, ⟨member, own⟩, fun other also => eq_of_shared distinct also.1 member also.2 own⟩

/-- What is gone has left its ids behind, and only that. -/
theorem not_mem_ids_post_iff (distinct : ledger.ids.Nodup) {account : Account} (member : account ∈ ledger.live)
    (own : relayId ∈ account.ids) {posting : Posting} :
    relayId ∉ (ledger.post posting).ids ↔ posting.ends account.ids = true := by
  rw [ids, post, List.flatMap_append, List.mem_append, not_or]
  constructor
  · rintro ⟨unkept, _⟩
    by_contra stays
    apply unkept
    refine List.mem_flatMap.mpr ⟨account.post posting, List.mem_map_of_mem ?_, (account.ids_post posting).symm ▸ own⟩
    exact List.mem_filter.mpr ⟨member, decide_eq_true stays⟩
  · intro gone
    constructor
    · intro kept
      obtain ⟨other, left, also⟩ := List.mem_flatMap.mp kept
      obtain ⟨old, was, rfl⟩ := List.mem_map.mp left
      obtain ⟨live, stays⟩ := List.mem_filter.mp was
      rw [Account.ids_post] at also
      rw [eq_of_shared distinct live member also own, gone] at stays
      cases stays
    · intro new
      cases posting with
      | opened => cases gone
      | _ => cases new

end Ledger

namespace Book
variable {config : AgentConfig} {book : Book} {relayId : RelayId}

theorem Balanced.ids (balanced : book.Balanced config) : book.agent.table.ids = book.ledger.ids := by
  have held : book.agent.table.ids = book.agent.table.standings.flatMap Standing.ids := by
    rw [ExchangeTable.standings, List.flatMap_map]
    rfl
  rw [held, balanced.standings, List.flatMap_map]
  rfl

theorem Balanced.distinct (balanced : book.Balanced config) : book.ledger.ids.Nodup :=
  balanced.ids ▸ balanced.solvent.sound.distinct

theorem Balanced.contains_iff (balanced : book.Balanced config) :
    book.agent.contains relayId = true ↔ relayId ∈ book.ledger.ids := by
  rw [Agent.contains, ExchangeTable.contains_iff_mem_ids, balanced.ids]

theorem Balanced.contains_eq_false (balanced : book.Balanced config) :
    book.agent.contains relayId = false ↔ relayId ∉ book.ledger.ids := by
  rw [← balanced.contains_iff, Bool.not_eq_true]

/-- The ids of a live exchange are unknown after an operation if and only if the operation says that it is gone. -/
theorem Balanced.unknown_iff_ends (valid : config.validate = .ok ()) (balanced : book.Balanced config) {account : Account}
    (member : account ∈ book.ledger.live) (own : relayId ∈ account.ids) (operation : Operation) :
    (book.agent.after operation).contains relayId = false ↔ (book.agent.posting operation).ends account.ids = true := by
  rw [← Ledger.not_mem_ids_post_iff balanced.distinct member own]
  exact (balanced.record valid operation).contains_eq_false

/-- Under its ids an exchange is found with what its account has left. -/
theorem Balanced.find? (balanced : book.Balanced config) {account : Account} (member : account ∈ book.ledger.live)
    (direction : Direction) : ∃ exchange, book.agent.table.find? (account.idFor direction) = some (exchange, direction) ∧
      exchange.standing = account.standing config.defaultPoints.toInt := by
  obtain ⟨exchange, present, same⟩ := List.mem_map.mp (balanced.funded member).1
  refine ⟨exchange, ?_, same⟩
  cases direction with
  | outward =>
    have inner : exchange.innerId = account.innerId := congrArg Standing.innerId same
    rw [Account.idFor, ← inner]
    exact balanced.solvent.sound.find?_inner present
  | inward =>
    have outer : exchange.outerId = account.outerId := congrArg Standing.outerId same
    rw [Account.idFor, ← outer]
    exact balanced.solvent.sound.find?_outer present

end Book
end OnionCircuit
