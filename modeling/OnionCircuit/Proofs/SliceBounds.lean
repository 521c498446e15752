import OnionCircuit.Proofs.PacketReading

/-! Packets read once more, with every cut of a byte string held against its length. No cut falls outside, whatever the
packet, so what is read is what was read without looking. -/

namespace OnionCircuit
open Cipher (tagSize)

/-- A cut that does not lie in a string of some length. -/
structure OutOfBounds where
  first : Nat
  last : Nat
  length : Nat
deriving DecidableEq

namespace Bytes
variable {bytes : Bytes} {first last : Nat}

/-- The bytes from one place up to another, if both are places of the string and in this order. -/
def cut (bytes : Bytes) (first last : Nat) : Except OutOfBounds Bytes :=
  if first ≤ last ∧ last ≤ bytes.length then .ok ((bytes.take last).drop first) else .error ⟨first, last, bytes.length⟩

theorem cut_eq (ordered : first ≤ last) (inside : last ≤ bytes.length) :
    bytes.cut first last = .ok ((bytes.take last).drop first) := if_pos ⟨ordered, inside⟩

theorem cut_front (inside : last ≤ bytes.length) : bytes.cut 0 last = .ok (bytes.take last) := cut_eq (Nat.zero_le _) inside

theorem cut_back (inside : first ≤ bytes.length) : bytes.cut first bytes.length = .ok (bytes.drop first) := by
  rw [cut_eq inside (Nat.le_refl _), List.take_length]

/-- What is cut in two pieces is in both together. -/
theorem drop_take_append_drop (ordered : first ≤ last) (inside : last ≤ bytes.length) :
    (bytes.take last).drop first ++ bytes.drop last = bytes.drop first := by
  have reaches : first ≤ (bytes.take last).length := by
    rw [List.length_take]
    omega
  rw [← List.drop_append_of_le_length reaches, List.take_append_drop]

end Bytes

namespace Tag

def wrapCut (key : TagKey) (ids : RelayIds) (packet : Bytes) : Except OutOfBounds (Except LayerError Bytes) :=
  if packet.length < Header.saltSize then .ok (.error .tooShort)
  else do
    let datagram := ids.bytes ++ packet
    let front ← datagram.cut 0 RelayIds.size
    let rest ← datagram.cut RelayIds.size datagram.length
    let salt ← rest.cut 0 Header.saltSize
    let body ← rest.cut Header.saltSize rest.length
    return .ok (front ++ salt ++ (cipher key salt).encrypt front body)

/-- The tag is cut off before the text in front of it is decrypted. -/
def unwrapCut (key : TagKey) (datagram : Bytes) : Except OutOfBounds (Except LayerError Bytes) :=
  if datagram.length < RelayIds.size + Header.saltSize + tagSize then .ok (.error .tooShort)
  else do
    let front ← datagram.cut 0 RelayIds.size
    let body ← datagram.cut RelayIds.size (datagram.length - tagSize)
    let salt ← body.cut 0 Header.saltSize
    let hidden ← body.cut Header.saltSize body.length
    let tag ← datagram.cut (datagram.length - tagSize) datagram.length
    return match (cipher key salt).decrypt? front (hidden ++ tag) with
      | some rest => .ok (salt ++ rest)
      | none => .error .unauthentic

theorem wrapCut_eq (key : TagKey) (ids : RelayIds) (packet : Bytes) : wrapCut key ids packet = .ok (wrap key ids packet) := by
  unfold wrapCut wrap
  split
  next => rfl
  next salted =>
    have front : (ids.bytes ++ packet).take RelayIds.size = ids.bytes := by
      rw [List.take_append_of_le_length (by simp), List.take_of_length_le (by simp)]
    have rest : (ids.bytes ++ packet).drop RelayIds.size = packet := by
      rw [List.drop_append_of_le_length (by simp), List.drop_of_length_le (by simp), List.nil_append]
    have enough : RelayIds.size ≤ (ids.bytes ++ packet).length := by
      rw [List.length_append, RelayIds.length_bytes]
      omega
    simp only [Bytes.cut_front enough, Bytes.cut_back enough, front, rest, bind, Except.bind,
      Bytes.cut_front (Nat.not_lt.mp salted), Bytes.cut_back (Nat.not_lt.mp salted)]
    rfl

theorem unwrapCut_eq (key : TagKey) (datagram : Bytes) : unwrapCut key datagram = .ok (unwrap key datagram) := by
  unfold unwrapCut unwrap
  split
  next => rfl
  next short =>
    have long := Nat.not_lt.mp short
    have ordered : RelayIds.size ≤ datagram.length - tagSize := by omega
    have inside : datagram.length - tagSize ≤ datagram.length := Nat.sub_le _ _
    have whole := Bytes.drop_take_append_drop ordered inside
    have salted : Header.saltSize ≤ ((datagram.take (datagram.length - tagSize)).drop RelayIds.size).length := by
      rw [List.length_drop, List.length_take]
      omega
    simp only [← whole, List.take_append_of_le_length salted, List.drop_append_of_le_length salted,
      Bytes.cut_front (Nat.le_trans ordered inside), Bytes.cut_eq ordered inside, Bytes.cut_front salted,
      Bytes.cut_back salted, Bytes.cut_back inside, bind, Except.bind]
    rfl

end Tag

namespace Onion

def addCut (embryo : Embryo) (packet : Bytes) : Except OutOfBounds (Except LayerError Bytes) :=
  if packet.length < Header.size then .ok (.error .tooShort)
  else do
    let salt ← packet.cut 0 Header.saltSize
    let body ← packet.cut Header.saltSize packet.length
    return .ok (salt ++ (cipher embryo salt).encrypt embryo.secret.bytes body)

def removeCut (embryo : Embryo) (packet : Bytes) : Except OutOfBounds (Except LayerError Bytes) :=
  if packet.length < Header.size + tagSize then .ok (.error .tooShort)
  else do
    let salt ← packet.cut 0 Header.saltSize
    let tag ← packet.cut (packet.length - tagSize) packet.length
    let hidden ← packet.cut Header.saltSize (packet.length - tagSize)
    return match (cipher embryo salt).decrypt? embryo.secret.bytes (hidden ++ tag) with
      | some rest => .ok (salt ++ rest)
      | none => .error .unauthentic

theorem addCut_eq (embryo : Embryo) (packet : Bytes) : addCut embryo packet = .ok (add embryo packet) := by
  unfold addCut add
  split
  next => rfl
  next short =>
    have salted : Header.saltSize ≤ packet.length := Nat.le_trans Header.saltSize_le_size (Nat.not_lt.mp short)
    simp only [Bytes.cut_front salted, Bytes.cut_back salted, bind, Except.bind]
    rfl

theorem removeCut_eq (embryo : Embryo) (packet : Bytes) : removeCut embryo packet = .ok (remove embryo packet) := by
  unfold removeCut remove
  split
  next => rfl
  next short =>
    have long := Nat.not_lt.mp short
    have salted := Header.saltSize_le_size
    have ordered : Header.saltSize ≤ packet.length - tagSize := by omega
    have inside : packet.length - tagSize ≤ packet.length := Nat.sub_le _ _
    rw [← Bytes.drop_take_append_drop ordered inside]
    simp only [Bytes.cut_front (Nat.le_trans ordered inside), Bytes.cut_eq ordered inside, Bytes.cut_back inside, bind,
      Except.bind]
    rfl

end Onion

namespace Address

def ofBytesCut? (bytes : Bytes) : Except OutOfBounds (Option Address) :=
  if bytes.length < size then .ok none
  else do
    let relayId ← bytes.cut 0 4
    let port ← bytes.cut 4 6
    let ip ← bytes.cut 8 size
    return (Octets.ofBytes? 16 ip).map fun ip => ⟨(Bytes.ofLittle relayId).toUInt32, (Bytes.ofLittle port).toUInt16, ip⟩

private theorem ofBytes?_short {bytes : Bytes} (short : bytes.length < size) : ofBytes? bytes = none := by
  have missing : Octets.first? 16 (bytes.drop 8) = none := by
    rw [← Option.isNone_iff_eq_none, ← Option.isSome_eq_false_iff, ← Bool.not_eq_true, Octets.first?_isSome, List.length_drop]
    simp only [size] at short
    omega
  rw [ofBytes?, missing]
  rfl

theorem ofBytesCut?_eq (bytes : Bytes) : ofBytesCut? bytes = .ok (ofBytes? bytes) := by
  unfold ofBytesCut?
  split
  next short => rw [ofBytes?_short short]
  next short =>
    have long : 24 ≤ bytes.length := Nat.not_lt.mp short
    have relayId : bytes.cut 0 4 = .ok (bytes.take 4) := Bytes.cut_front (by omega)
    have port : bytes.cut 4 6 = .ok ((bytes.drop 4).take 2) := by
      rw [Bytes.cut_eq (by omega) (by omega), List.drop_take]
    have ip : bytes.cut 8 size = .ok ((bytes.drop 8).take 16) := by
      rw [Bytes.cut_eq (by decide) (Nat.not_lt.mp short), List.drop_take]
      rfl
    simp only [relayId, port, ip, bind, Except.bind, ofBytes?, Octets.first?]
    cases Octets.ofBytes? 16 ((bytes.drop 8).take 16) <;> rfl

end Address

namespace Header

def isTerminalCut (packet : Bytes) : Except OutOfBounds Bool :=
  if size ≤ packet.length then do
    let field ← packet.cut 4 8
    return field == Bytes.zeros 4
  else .ok false

def parseCut? (packet : Bytes) : Except OutOfBounds (Option Header) :=
  if packet.length < size then .ok none
  else do
    let salt ← packet.cut 0 saltSize
    let zero ← packet.cut 4 8
    let address ← Address.ofBytesCut? (← packet.cut 8 size)
    return address.map fun address => ⟨(Bytes.ofLittle salt).toUInt32, (Bytes.ofLittle zero).toUInt32, address⟩

theorem isTerminalCut_eq (packet : Bytes) : isTerminalCut packet = .ok (isTerminal packet) := by
  unfold isTerminalCut isTerminal
  split
  next long =>
    have inside : 8 ≤ packet.length := Nat.le_trans (by decide) long
    simp only [Bytes.cut_eq (show 4 ≤ 8 by decide) inside, bind, Except.bind, pure, Except.pure, long, decide_true, Bool.true_and,
      List.take_drop]
  next short =>
    simp only [short, decide_false, Bool.false_and]

theorem parseCut?_eq (packet : Bytes) : parseCut? packet = .ok (parse? packet) := by
  have same : (packet.take size).drop 8 = (packet.drop 8).take Address.size := List.drop_take
  unfold parseCut?
  split
  next short =>
    have missing : Address.ofBytes? (packet.drop 8) = none := by
      apply Address.ofBytes?_short
      rw [List.length_drop, Address.size]
      simp only [size] at short
      omega
    rw [parse?, missing]
    rfl
  next short =>
    have long : 32 ≤ packet.length := Nat.not_lt.mp short
    have salt : packet.cut 0 saltSize = .ok (packet.take 4) := Bytes.cut_front (Nat.le_trans (by decide) long)
    have zero : packet.cut 4 8 = .ok ((packet.drop 4).take 4) := by
      rw [Bytes.cut_eq (by omega) (by omega), List.drop_take]
    have address : packet.cut 8 size = .ok ((packet.drop 8).take Address.size) := by
      rw [Bytes.cut_eq (by decide) (Nat.not_lt.mp short), same]
    simp only [salt, zero, address, bind, Except.bind, Address.ofBytesCut?_eq, Address.ofBytes?_take, parse?]
    cases Address.ofBytes? (packet.drop 8) <;> rfl

end Header
def Reading.towardCut (key : TagKey) (source : RelayId) (next : Endpoint) (packet : Bytes) : Except OutOfBounds Reading := do
  match ← Tag.wrapCut key ⟨source, next.relayId⟩ packet with
  | .ok datagram => return .passing ⟨next.socket, datagram⟩
  | .error _ => return .unreadable .malformed

namespace Exchange

def readOutwardCut (exchange : Exchange) (datagram : Bytes) : Except OutOfBounds Reading := do
  match ← Tag.unwrapCut exchange.innerKey datagram with
  | .error _ => return .unreadable .decryptionFailed
  | .ok covered =>
    match ← Onion.removeCut exchange.link.embryo covered with
    | .error _ => return .unreadable .decryptionFailed
    | .ok packet =>
      if ← Header.isTerminalCut packet then
        match ← Header.parseCut? packet with
        | none => return .unreadable .malformed
        | some header =>
          let content ← packet.cut Header.size packet.length
          return if header.address.isRelay then .arrived content else .leaving header.address content
      else
        match exchange.outer with
        | none => return .unreadable .notEstablished
        | some next => Reading.towardCut next.key exchange.outerId next.endpoint packet

def readRelayedCut (exchange : Exchange) (next : Binding) (datagram : Bytes) : Except OutOfBounds Reading := do
  match ← Tag.unwrapCut next.key datagram with
  | .error _ => return .unreadable .decryptionFailed
  | .ok packet =>
    match ← Onion.addCut exchange.link.embryo packet with
    | .error _ => return .unreadable .malformed
    | .ok covered => Reading.towardCut exchange.innerKey exchange.innerId exchange.link.endpoint covered

def readEnteringCut (exchange : Exchange) (salt : UInt32) (sender : Address) (datagram : Bytes) :
    Except OutOfBounds Reading := do
  let content ← datagram.cut RelayIds.size datagram.length
  match ← Onion.addCut exchange.link.embryo ((Header.terminal salt sender).bytes ++ content) with
  | .error _ => return .unreadable .malformed
  | .ok covered => Reading.towardCut exchange.innerKey exchange.innerId exchange.link.endpoint covered

end Exchange

def Accepted.readingCut (accepted : Accepted) (salt : UInt32) (datagram : Bytes) : Except OutOfBounds Reading :=
  match accepted.passage with
  | .outward => accepted.exchange.readOutwardCut datagram
  | .relayed next => accepted.exchange.readRelayedCut next datagram
  | .entering sender => accepted.exchange.readEnteringCut salt sender datagram

def Agent.processCut (agent : Agent) (resolve : Resolver) (salt : UInt32) (sender : Endpoint) (relayId : RelayId)
    (datagram : Bytes) (now : Micros) : Except OutOfBounds Processed :=
  if relayId = 0 then .ok (agent.refuse .notRelayed)
  else if datagram.length < RelayIds.size then .ok (agent.refuse .malformed)
  else do
    let content ← datagram.cut RelayIds.size datagram.length
    let screened := agent.screen sender relayId content now
    match screened.value with
    | .error fault => return ⟨screened.agent, screened.effects, .error fault⟩
    | .ok (.error reason) => return ⟨screened.agent, screened.effects, .ok (.dropped reason)⟩
    | .ok (.ok accepted) =>
      let acted := screened.agent.act resolve accepted now (← accepted.readingCut salt datagram)
      return { acted with effects := screened.effects ++ acted.effects }

theorem Reading.towardCut_eq (key : TagKey) (source : RelayId) (next : Endpoint) (packet : Bytes) :
    towardCut key source next packet = .ok (toward key source next packet) := by
  simp only [towardCut, toward, Tag.wrapCut_eq, bind, Except.bind]
  cases Tag.wrap key ⟨source, next.relayId⟩ packet <;> rfl

namespace Exchange
variable (exchange : Exchange) (datagram : Bytes)

theorem readOutwardCut_eq : exchange.readOutwardCut datagram = .ok (exchange.readOutward datagram) := by
  simp only [readOutwardCut, readOutward, open?, Tag.unwrapCut_eq, Bind.bind, Except.bind]
  cases Tag.unwrap exchange.innerKey datagram with
  | error short => rfl
  | ok covered =>
    simp only [Onion.removeCut_eq]
    cases Onion.remove exchange.link.embryo covered with
    | error short => rfl
    | ok packet =>
      simp only [Header.isTerminalCut_eq, Header.parseCut?_eq, Except.toOption]
      cases terminal : Header.isTerminal packet with
      | true =>
        have long : Header.size ≤ packet.length := of_decide_eq_true (Bool.and_eq_true_iff.mp terminal).1
        simp only [if_true, Bytes.cut_back long]
        cases Header.parse? packet <;> rfl
      | false =>
        simp only [Bool.false_eq_true, if_false]
        cases exchange.outer with
        | none => rfl
        | some next => exact Reading.towardCut_eq _ _ _ _

theorem readRelayedCut_eq (next : Binding) : exchange.readRelayedCut next datagram = .ok (exchange.readRelayed next datagram) := by
  simp only [readRelayedCut, readRelayed, Tag.unwrapCut_eq, Bind.bind, Except.bind]
  cases Tag.unwrap next.key datagram with
  | error short => rfl
  | ok packet =>
    simp only [Onion.addCut_eq]
    cases Onion.add exchange.link.embryo packet with
    | error short => rfl
    | ok covered => exact Reading.towardCut_eq _ _ _ _

theorem readEnteringCut_eq (salt : UInt32) (sender : Address) (long : RelayIds.size ≤ datagram.length) :
    exchange.readEnteringCut salt sender datagram =
      .ok (exchange.readEntering salt sender (datagram.drop RelayIds.size)) := by
  have enough : Header.size ≤ ((Header.terminal salt sender).bytes ++ datagram.drop RelayIds.size).length := by
    rw [List.length_append, Header.length_bytes]
    omega
  simp only [readEnteringCut, readEntering, Bytes.cut_back long, Bind.bind, Except.bind, Onion.addCut_eq, Onion.add_eq enough]
  exact Reading.towardCut_eq _ _ _ _

end Exchange

theorem Accepted.readingCut_eq (accepted : Accepted) (salt : UInt32) {datagram : Bytes}
    (long : RelayIds.size ≤ datagram.length) : accepted.readingCut salt datagram = .ok (accepted.reading salt datagram) := by
  obtain ⟨exchange, passage⟩ := accepted
  cases passage with
  | outward => exact exchange.readOutwardCut_eq datagram
  | relayed next => exact exchange.readRelayedCut_eq datagram next
  | entering sender => exact exchange.readEnteringCut_eq datagram salt sender long

/-- No packet makes an agent cut where there is nothing. -/
theorem Agent.processCut_eq (agent : Agent) (resolve : Resolver) (salt : UInt32) (sender : Endpoint) (relayId : RelayId)
    (datagram : Bytes) (now : Micros) : agent.processCut resolve salt sender relayId datagram now =
      .ok (agent.process resolve salt sender relayId datagram now) := by
  unfold processCut process
  split
  · rfl
  · split
    · rfl
    next short =>
      have long := Nat.not_lt.mp short
      simp only [Bytes.cut_back long, Bind.bind, Except.bind]
      cases judged : (agent.screen sender relayId (datagram.drop RelayIds.size) now).value with
      | error fault => rfl
      | ok answer =>
        cases answer with
        | error reason => rfl
        | ok accepted =>
          simp only [accepted.readingCut_eq salt long, pass_eq]
          rfl

end OnionCircuit
