import OnionCircuit.Proofs.ExchangePostings
import OnionCircuit.Proofs.Journey

/-! A ledger of all exchanges that an agent ever had, kept from what its operations report and from nothing else. It
always agrees with the agent about which exchanges there are, and what they have left. -/

namespace OnionCircuit

/-- What became of an exchange. -/
structure Account where
  innerId : RelayId
  outerId : RelayId
  /-- What was added in all. -/
  credited : Int
  /-- How many points were taken. -/
  charges : Nat
  /-- How many packets it let through, also the one for which it had no point left. -/
  packets : Nat
deriving DecidableEq

namespace Account

def new (innerId outerId : RelayId) : Account := ⟨innerId, outerId, 0, 0, 0⟩

def ids (account : Account) : List RelayId := [account.innerId, account.outerId]

def balance (account : Account) (start : Int) : Int := start + account.credited - account.charges

def standing (account : Account) (start : Int) : Standing := ⟨account.innerId, account.outerId, account.balance start⟩

def post (account : Account) : Posting → Account
  | .credited relayId amount =>
    if relayId ∈ account.ids then { account with credited := account.credited + amount } else account
  | .charged relayId packet =>
    if relayId ∈ account.ids then
      { account with charges := account.charges + 1, packets := account.packets + packet.toNat }
    else account
  | .exhausted relayId packet =>
    if relayId ∈ account.ids then { account with packets := account.packets + packet.toNat } else account
  | .opened .. | .removed _ | .nothing => account

variable (account : Account) (posting : Posting)

theorem ids_post : (account.post posting).ids = account.ids := by
  cases posting <;> simp only [post] <;> split <;> rfl

theorem balance_post (start : Int) :
    (account.post posting).balance start = account.balance start + posting.change account.ids := by
  cases posting with
  | credited relayId amount =>
    simp only [post, Posting.change, balance]
    split
    · simp only
      omega
    · omega
  | charged relayId packet =>
    simp only [post, Posting.change, balance]
    split
    · simp only
      omega
    · omega
  | exhausted relayId packet =>
    simp only [post, Posting.change, balance]
    split <;> exact (Int.add_zero _).symm
  | _ => exact (Int.add_zero _).symm

theorem standing_post (start : Int) : (account.post posting).standing start = (account.standing start).post posting := by
  have same := account.ids_post posting
  simp only [ids, List.cons.injEq, and_true] at same
  simp only [standing, Standing.post, same, balance_post]
  rfl

variable {account : Account} {posting : Posting}

theorem paid_post (paid : account.packets ≤ account.charges) (stays : posting.ends account.ids = false) :
    (account.post posting).packets ≤ (account.post posting).charges := by
  cases posting with
  | charged relayId packet =>
    have once := packet.toNat_le
    simp only [post]
    split
    · simp only
      omega
    · exact paid
  | exhausted relayId packet =>
    rw [post, if_neg (of_decide_eq_false stays)]
    exact paid
  | credited relayId amount =>
    simp only [post]
    split <;> exact paid
  | _ => exact paid

/-- With what an exchange had to spend in all, it has let at most one packet more through. -/
theorem spent_post {start limit : Int} (paid : account.packets ≤ account.charges) (least : 0 ≤ account.balance start)
    (lawful : posting.Lawful limit (account.standing start)) (gone : posting.ends account.ids = true) :
    ((account.post posting).packets : Int) ≤ start + (account.post posting).credited + 1 := by
  rw [balance] at least
  cases posting with
  | exhausted relayId packet =>
    have once := packet.toNat_le
    have own : relayId ∈ account.ids := of_decide_eq_true gone
    have broke : start + account.credited - account.charges = 0 := lawful own
    simp only [post, own, if_true]
    omega
  | removed relayIds =>
    simp only [post]
    omega
  | _ => cases gone

end Account

/-- The accounts of the exchanges that are live, of those that are not any more, and all ids in the order in which they
were handed out. -/
structure Ledger where
  live : List Account
  closed : List Account
  handed : List RelayId
deriving DecidableEq

namespace Ledger

def empty : Ledger := ⟨[], [], []⟩

def post (ledger : Ledger) (posting : Posting) : Ledger where
  live := ((ledger.live.filter fun account => ¬ posting.ends account.ids).map (·.post posting)) ++
    posting.fresh.map fun (innerId, outerId) => Account.new innerId outerId
  closed := ledger.closed ++ (ledger.live.filter fun account => posting.ends account.ids).map (·.post posting)
  handed := ledger.handed ++ posting.fresh.flatMap fun (innerId, outerId) => [innerId, outerId]

theorem standings_post (ledger : Ledger) (posting : Posting) (start : Int) :
    (ledger.post posting).live.map (·.standing start) = posting.settle start (ledger.live.map (·.standing start)) := by
  simp only [post, Posting.settle, List.map_append, List.map_map, List.filter_map]
  congr 1
  · exact List.map_congr_left fun account _ => account.standing_post posting start
  · refine List.map_congr_left fun ids _ => ?_
    simp only [Function.comp_apply, Account.new, Account.standing, Account.balance, Int.add_zero, Int.natCast_zero,
      Int.sub_zero]

end Ledger

def Agent.fresh (config : AgentConfig) : Agent :=
  ⟨config, ExchangeTable.empty, EndpointCache.empty config.cacheCapacity.toNat, []⟩

/-- An agent with limits that make sense starts, if there is room for its queue. -/
theorem Agent.start_eq {config : AgentConfig} (valid : config.validate = .ok ()) (room : config.layOutQueue = .ok ()) :
    Agent.start config = .ok (Agent.fresh config) := by
  rw [start, valid, room]
  rfl

/-- An agent with the ledger of its exchanges. -/
structure Book where
  agent : Agent
  ledger : Ledger

namespace Book

def start (config : AgentConfig) : Book := ⟨Agent.fresh config, Ledger.empty⟩

def record (book : Book) (operation : Operation) : Book :=
  ⟨book.agent.after operation, book.ledger.post (book.agent.posting operation)⟩

def run (book : Book) (operations : List Operation) : Book := operations.foldl record book

/-- Every live exchange has an account, with its ids and with what it has left. Who has let a packet through has paid
for it, but for the last one. -/
structure Balanced (config : AgentConfig) (book : Book) : Prop where
  limits : book.agent.config = config
  solvent : book.agent.Solvent
  room : book.agent.exchangeCount ≤ config.maxExchanges.toNat
  standings : book.agent.table.standings = book.ledger.live.map (·.standing config.defaultPoints.toInt)
  paid : ∀ account ∈ book.ledger.live, account.packets ≤ account.charges
  spent : ∀ account ∈ book.ledger.closed, (account.packets : Int) ≤ config.defaultPoints.toInt + account.credited + 1

section
variable {config : AgentConfig} {book : Book}

private theorem points_of_validate (valid : config.validate = .ok ()) :
    0 ≤ config.defaultPoints.toInt ∧ config.defaultPoints.toInt ≤ config.maxPoints.toInt := by
  unfold AgentLimits.validate at valid
  split at valid
  next => cases valid
  next =>
    split at valid
    next => cases valid
    next inside =>
      rw [not_or, Int64.lt_iff_toInt_lt, Int64.lt_iff_toInt_lt] at inside
      exact ⟨Int.not_lt.mp inside.1, Int.not_lt.mp inside.2⟩

private theorem Balanced.room_record (balanced : book.Balanced config) (operation : Operation) :
    (book.record operation).agent.exchangeCount ≤ config.maxExchanges.toNat := by
  have count (table : ExchangeTable) : table.standings.length = table.size := List.length_map _
  have settles := balanced.solvent.settles operation
  have fewer : ((book.agent.table.standings.filter fun standing =>
      ¬ (book.agent.posting operation).ends standing.ids)).length ≤ book.agent.table.standings.length :=
    List.length_filter_le _ _
  have grown := congrArg List.length settles.standings
  rw [Posting.settle, List.length_append, List.length_map, List.length_map, count] at grown
  rw [count] at fewer
  change (book.agent.after operation).table.size ≤ _
  have room := balanced.room
  rw [Agent.exchangeCount] at room
  obtain none | ⟨free, one⟩ := book.agent.posting_fresh operation
  · rw [none, List.length_nil] at grown
    omega
  · rw [Agent.exchangeCount, balanced.limits] at free
    omega

theorem Balanced.funded (balanced : book.Balanced config) {account : Account} (member : account ∈ book.ledger.live) :
    account.standing config.defaultPoints.toInt ∈ book.agent.table.standings ∧
    0 ≤ account.balance config.defaultPoints.toInt ∧
    account.balance config.defaultPoints.toInt ≤ config.maxPoints.toInt := by
  have present : account.standing config.defaultPoints.toInt ∈ book.agent.table.standings := by
    rw [balanced.standings]
    exact List.mem_map_of_mem member
  obtain ⟨exchange, held, same⟩ := List.mem_map.mp present
  have funded := balanced.solvent.funded exchange held
  rw [same, balanced.limits] at funded
  exact ⟨present, funded⟩

theorem Balanced.record (valid : config.validate = .ok ()) (balanced : book.Balanced config) (operation : Operation) :
    (book.record operation).Balanced config := by
  obtain ⟨afford, enough⟩ := points_of_validate valid
  have settles := balanced.solvent.settles operation
  constructor
  · exact (book.agent.after_config operation).trans balanced.limits
  · exact balanced.solvent.after (balanced.limits ▸ afford) (balanced.limits ▸ enough) operation
  · exact balanced.room_record operation
  · rw [Book.record, settles.standings, balanced.standings, balanced.limits, Ledger.standings_post]
  · intro account member
    rcases List.mem_append.mp member with kept | new
    · obtain ⟨old, left, rfl⟩ := List.mem_map.mp kept
      obtain ⟨was, stays⟩ := List.mem_filter.mp left
      exact old.paid_post (balanced.paid old was) (by simpa using stays)
    · obtain ⟨_, _, rfl⟩ := List.mem_map.mp new
      exact Nat.le_refl 0
  · intro account member
    rcases List.mem_append.mp member with past | now
    · exact balanced.spent account past
    · obtain ⟨old, left, rfl⟩ := List.mem_map.mp now
      obtain ⟨was, gone⟩ := List.mem_filter.mp left
      obtain ⟨present, least, _⟩ := balanced.funded was
      exact old.spent_post (balanced.paid old was) least (settles.lawful _ present) gone

theorem Balanced.run (valid : config.validate = .ok ()) (balanced : book.Balanced config) (operations : List Operation) :
    (book.run operations).Balanced config := by
  induction operations generalizing book with
  | nil => exact balanced
  | cons operation operations ih => exact ih (balanced.record valid operation)

theorem start_balanced (config : AgentConfig) : (start config).Balanced config :=
  ⟨rfl, ⟨ExchangeTable.sound_empty, fun _ member => nomatch member⟩, Nat.zero_le _, rfl, fun _ member => (nomatch member),
    fun _ member => (nomatch member)⟩

theorem run_balanced (valid : config.validate = .ok ()) (operations : List Operation) :
    ((start config).run operations).Balanced config := (start_balanced config).run valid operations

end

/-- The link of a numbered hop gets an exchange, with ids from some random words. -/
def numberedAdd (number : UInt8) (words : List UInt32) : Operation :=
  .add (Circuit.numberedHop number).link ⟨(Circuit.numberedHop number).key, true, true⟩ 0 words

end Book
end OnionCircuit
