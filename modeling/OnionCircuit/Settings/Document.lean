import OnionCircuit.Json.Printer
import OnionCircuit.Json.Reader
import OnionCircuit.Settings.Basic
import OnionCircuit.Settings.Shape

/-! The text of a settings file. -/

namespace OnionCircuit

namespace AgentSettings

def entries : List (Setting AgentSettings) :=
  [Shape.word.setting "max_exchanges" (·.maxExchanges) fun all value => { all with maxExchanges := value },
   Shape.signed.setting "default_relay_point" (·.defaultPoints) fun all value => { all with defaultPoints := value },
   Shape.signed.setting "max_relay_point" (·.maxPoints) fun all value => { all with maxPoints := value },
   Shape.signed.setting "relay_retention_mics" (·.relayRetention) fun all value => { all with relayRetention := value },
   Shape.signed.setting "restricted_interval_mics" (·.restrictedInterval)
     fun all value => { all with restrictedInterval := value },
   Shape.signed.setting "endpoint_retention_mics" (·.endpointRetention)
     fun all value => { all with endpointRetention := value },
   Shape.word.setting "endpoint_cache_capacity" (·.cacheCapacity) fun all value => { all with cacheCapacity := value },
   Shape.word.setting "clean_interval_ms" (·.cleanInterval) fun all value => { all with cleanInterval := value },
   Shape.word.setting "send_queue_capacity" (·.queueCapacity) fun all value => { all with queueCapacity := value },
   Shape.text.setting "relay_address" (·.relayAddress) fun all value => { all with relayAddress := value }]

def shape : Shape AgentSettings := .ofSettings entries {}

end AgentSettings

namespace CircuitConfig

def entries : List (Setting CircuitConfig) :=
  [Shape.word.setting "max_serial_relays" (·.maxRelays) fun all value => { all with maxRelays := value },
   Shape.word.setting "close_delay_ms" (·.closeDelay) fun all value => { all with closeDelay := value },
   Shape.word.setting "maintain_interval_ms" (·.maintainInterval) fun all value => { all with maintainInterval := value },
   Shape.bool.setting "allow_open_sesami" (·.allowOpenSesami) fun all value => { all with allowOpenSesami := value },
   Shape.bool.setting "allow_unknown_incoming" (·.allowUnknown) fun all value => { all with allowUnknown := value }]

def shape : Shape CircuitConfig := .ofSettings entries {}

end CircuitConfig

namespace Settings

def entries : List (Setting Settings) :=
  [AgentSettings.shape.setting "agent" (·.agent) fun all value => { all with agent := value },
   CircuitConfig.shape.setting "circuit" (·.circuit) fun all value => { all with circuit := value }]

/-- Where the settings came from is not kept. -/
def shape : Shape Settings := .ofSettings entries {}

def text (settings : Settings) : List Char := (shape.write settings).pretty 0

def parse? (chars : List Char) : Option Settings := do shape.read? (← Json.parse? chars)

end Settings
end OnionCircuit
