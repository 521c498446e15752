import OnionCircuit.Circuit.Basic
import OnionCircuit.Relay.Config
import OnionCircuit.Settings.Path

/-! Settings as they are kept between runs: one section for relay agents and one for
circuits. Only the agent section can hold values that no agent starts with. -/

namespace OnionCircuit

structure AgentSettings extends AgentLimits where
  /-- The text of the address to advertise. -/
  relayAddress : Option String := none
deriving DecidableEq

structure Settings where
  agent : AgentSettings := {}
  circuit : CircuitConfig := {}
  /-- The file that the settings were loaded from. -/
  source : Option Path := none
deriving DecidableEq

inductive SettingsError
  | unreadable
  | unwritable
  | malformed
  /-- A directory could not be made. -/
  | noDirectory
  | badAddress
  | badAgent (error : ConfigError)
deriving DecidableEq

def SettingsError.message : SettingsError → String
  | .badAddress => "Invalid setting agent.relay_address: invalid socket address syntax"
  | .badAgent error => "Invalid setting agent: " ++ error.message
  | _ => ""

namespace AgentSettings

/-- The address to advertise, which has no relay id. -/
def address (settings : AgentSettings) : Except SettingsError (Option Address) :=
  match settings.relayAddress with
  | none => .ok none
  | some text =>
    match SocketAddress.parse? text.toList with
    | some socket => .ok (some (Address.ofSocket 0 socket))
    | none => .error .badAddress

/-- The configuration of an agent; the address is looked at before the limits. -/
def config (settings : AgentSettings) : Except SettingsError AgentConfig := do
  let address ← settings.address
  match settings.validate with
  | .ok () => return ⟨settings.toAgentLimits, address⟩
  | .error error => throw (.badAgent error)

end AgentSettings
end OnionCircuit
