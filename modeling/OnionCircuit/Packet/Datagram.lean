import OnionCircuit.Net.Address

/-! Datagrams between relays. Each starts with the relay id it comes from and the
relay id it is for; its content starts with two bytes that say what it is. -/

namespace OnionCircuit

structure RelayIds where
  source : RelayId
  destination : RelayId
deriving DecidableEq

/-- What a datagram without room for its relay ids gives. -/
structure ShortDatagram where
  length : Nat
deriving DecidableEq

namespace RelayIds

def size : Nat := 8

def bytes (ids : RelayIds) : Bytes := Bytes.little 4 ids.source.toNat ++ Bytes.little 4 ids.destination.toNat

@[simp] theorem length_bytes (ids : RelayIds) : ids.bytes.length = size := by simp [bytes, size]

def ofBytes (bytes : Bytes) : RelayIds :=
  ⟨(Bytes.ofLittle (bytes.take 4)).toUInt32, (Bytes.ofLittle ((bytes.drop 4).take 4)).toUInt32⟩

theorem ofBytes_append (ids : RelayIds) (rest : Bytes) : ofBytes (ids.bytes ++ rest) = ids := by
  simp [ofBytes, bytes, Bytes.ofLittle_word]

theorem bytes_ofBytes {bytes : Bytes} (enough : size ≤ bytes.length) : (ofBytes bytes).bytes = bytes.take size := by
  simp only [size] at enough
  rw [RelayIds.bytes, ofBytes, Bytes.little_word (by simp; omega), Bytes.little_word (by simp; omega)]
  exact (List.take_add (i := 4) (j := 4)).symm

end RelayIds

namespace Datagram

/-- The largest datagram that a relay forwards. -/
def largest : Nat := 1432

def readIds (datagram : Bytes) : Except ShortDatagram RelayIds :=
  if datagram.length < RelayIds.size then .error ⟨datagram.length⟩ else .ok (RelayIds.ofBytes datagram)

def writeIds (datagram : Bytes) (ids : RelayIds) : Except ShortDatagram Bytes :=
  if datagram.length < RelayIds.size then .error ⟨datagram.length⟩
  else .ok (ids.bytes ++ datagram.drop RelayIds.size)

end Datagram

def ShortDatagram.message (error : ShortDatagram) : String :=
  s!"Datagram too short: need {RelayIds.size} bytes, got {error.length}"

/-- What a content packet is; relays tell apart those that matter for admission. -/
inductive ContentKind
  | connect
  | ping
  /-- The kind that an outermost relay may accept from anyone. -/
  | openSesami
  | data
  | close
  | other (word : UInt16)
deriving DecidableEq

namespace ContentKind

def ofWord (word : UInt16) : ContentKind :=
  if word = 1 then .connect else if word = 2 then .ping else if word = 3 then .openSesami
  else if word = 4 then .data else if word = 5 then .close else .other word

def word : ContentKind → UInt16
  | .connect => 1
  | .ping => 2
  | .openSesami => 3
  | .data => 4
  | .close => 5
  | .other word => word

def name : ContentKind → String
  | .connect => "Connect"
  | .ping => "Ping"
  | .openSesami => "OpenSesami"
  | .data => "Data"
  | .close => "Close"
  | .other word => s!"Other({String.ofList (Digits.decimal word.toNat)})"

def ofContent? : Bytes → Option ContentKind
  | low :: high :: _ => some (ofWord (Bytes.ofLittle [low, high]).toUInt16)
  | _ => none

theorem word_ofWord (word : UInt16) : (ofWord word).word = word := by
  unfold ofWord
  repeat' split
  all_goals simp_all [ContentKind.word]

end ContentKind
end OnionCircuit
