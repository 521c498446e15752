import OnionCircuit.Link
import OnionCircuit.Message.Control

/-! One hop of a circuit as the client sees it. The address that a relay asks to be
reached at wins over the address that its link leads to. -/

namespace OnionCircuit

structure Hop where
  /-- How the previous hop reaches it: its inner id and its transport address. -/
  endpoint : Endpoint
  address : Address
  key : TagKey
  outerId : RelayId
  retention : Int64
  link : Link
deriving DecidableEq

namespace Hop

def locate (response : AssignResponse) (link : Link) : Address := response.address.getD link.address

def ofAssignment (block : AssignBlock) (response : AssignResponse) (link : Link) : Hop :=
  let address := locate response link
  { endpoint := ⟨response.innerId, address.socket⟩
    address := address
    key := block.key
    outerId := response.outerId
    retention := response.retention
    link := link }

def innerId (hop : Hop) : RelayId := hop.endpoint.relayId

/-- Where the far side of the hop is reached. -/
def outerAddress (hop : Hop) : Address := Address.ofSocket hop.outerId hop.address.socket

/-- Hides the keys and the link. -/
def text (hop : Hop) : String :=
  let number (value : Nat) : String := String.ofList (Digits.decimal value)
  let endpoint := s!"NetEndpoint \x7b relay_id: {number hop.innerId.toNat}, addr: {String.ofList hop.endpoint.socket.text} \x7d"
  let address := s!"NetAddress \x7b relay_id: {number hop.address.relayId.toNat}, port: {number hop.address.port.toNat}, " ++
    s!"ip: {String.ofList hop.address.ip.text} \x7d"
  s!"RelayNode \x7b endpoint: {endpoint}, address: {address}, outer_relay_id: {number hop.outerId.toNat}, .. \x7d"

end Hop
end OnionCircuit
