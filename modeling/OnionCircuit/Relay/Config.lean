import OnionCircuit.Net.Address
import OnionCircuit.Relay.Checked
import OnionCircuit.Text.Digits

/-! The limits that a relay agent works under, and which of them make sense. -/

namespace OnionCircuit

structure AgentLimits where
  maxExchanges : UInt64 := 1000
  /-- What a new exchange may spend. -/
  defaultPoints : Int64 := 1000
  maxPoints : Int64 := 10000
  /-- How long an exchange may be idle. -/
  relayRetention : Micros := 30000000
  /-- The least time between two unknown packets that an exchange admits. -/
  restrictedInterval : Micros := 1000000
  /-- How long a connection packet opens its destination. -/
  endpointRetention : Micros := 60000000
  cacheCapacity : UInt64 := 1000
  /-- Milliseconds between two sweeps. -/
  cleanInterval : UInt64 := 10000
  queueCapacity : UInt64 := 4096
deriving DecidableEq

/-- Which limit makes no sense. -/
inductive ConfigError
  | noExchanges
  | pointsOutside (default max : Int64)
  | noRetention
  | noCapacity
  | noInterval
deriving DecidableEq

def ConfigError.message (error : ConfigError) : String :=
  "Invalid agent config: " ++ match error with
    | .noExchanges => "max_exchanges must be positive"
    | .pointsOutside default max =>
      let number (value : Int64) : String := String.ofList (Digits.signed value.toInt)
      s!"default_relay_point {number default} outside 0..={number max}"
    | .noRetention => "retention must be positive"
    | .noCapacity => "capacities must be positive"
    | .noInterval => "clean_interval must be positive"

/-- The first limit that makes no sense is reported. -/
def AgentLimits.validate (limits : AgentLimits) : Except ConfigError Unit :=
  if limits.maxExchanges = 0 then .error .noExchanges
  else if limits.defaultPoints < 0 ∨ limits.maxPoints < limits.defaultPoints then
    .error (.pointsOutside limits.defaultPoints limits.maxPoints)
  else if limits.relayRetention ≤ 0 ∨ limits.endpointRetention ≤ 0 then .error .noRetention
  else if limits.cacheCapacity = 0 ∨ limits.queueCapacity = 0 then .error .noCapacity
  else if limits.cleanInterval = 0 then .error .noInterval
  else .ok ()

/-- Why there is no room for a queue. -/
inductive QueueError
  /-- Its places cannot be numbered. -/
  | tooManyPlaces
  /-- No memory holds it. -/
  | tooManyBytes
deriving DecidableEq

def QueueError.message : QueueError → String
  | .tooManyPlaces => "bounded channel capacity is too large"
  | .tooManyBytes => "capacity overflow"

/-- A place in a queue is numbered by a word of 64 bits, of which two are spent on other things, and
takes 72 bytes, of which no memory has more than a signed word can count. -/
def AgentLimits.layOutQueue (limits : AgentLimits) : Except QueueError Unit :=
  if 4611686018427387904 ≤ limits.queueCapacity then .error .tooManyPlaces
  else if 9223372036854775807 < limits.queueCapacity.toNat * 72 then .error .tooManyBytes
  else .ok ()

structure AgentConfig extends AgentLimits where
  /-- Where clients are told to reach the relay, if not where their connection leads. -/
  relayAddress : Option Address := none
deriving DecidableEq

/-- Why an agent does not start. -/
inductive StartError
  | config (error : ConfigError)
  | queue (error : QueueError)
deriving DecidableEq

end OnionCircuit
