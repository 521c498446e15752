import OnionCircuit.Net.Address

/-! Formats of fields: how a value is written, and how it is read off the front of
a byte string. Formats are built from words, flags and fixed strings by pairing
and by options, so one definition gives both directions of a message. -/

namespace OnionCircuit

/-- Why bytes are not a message. -/
inductive Malformed
  | endOfInput
  | flag (byte : UInt8)
  | option (byte : UInt8)
  | verdict (word : UInt32)
  | family (word : UInt32)
deriving DecidableEq

def Malformed.message (error : Malformed) : String :=
  let unexpected (word : UInt32) (expected : String) : String :=
    s!"invalid value: integer `{word.toNat}`, expected {expected}"
  "Serialization error: " ++ match error with
    | .endOfInput => "io error: unexpected end of file"
    | .flag byte => s!"invalid u8 while decoding bool, expected 0 or 1, found {byte.toNat}"
    | .option byte => s!"tag for enum is not valid, found {byte.toNat}"
    | .verdict word => unexpected word "variant index 0 <= i < 7"
    | .family word => unexpected word "`V4` or `V6`"

structure Format (α : Type) where
  write : α → Bytes
  read : Bytes → Except Malformed (α × Bytes)

namespace Format

/-- The value at the front of a message, whatever follows it. -/
def decode (format : Format α) (bytes : Bytes) : Except Malformed α := (format.read bytes).map Prod.fst

/-- The same bytes for values of another type. -/
def convert (format : Format α) (forth : α → β) (back : β → α) : Format β where
  write value := format.write (back value)
  read bytes := (format.read bytes).map fun (value, rest) => (forth value, rest)

def pair (left : Format α) (right : Format β) : Format (α × β) where
  write value := left.write value.1 ++ right.write value.2
  read bytes := do
    let (first, rest) ← left.read bytes
    let (second, rest) ← right.read rest
    return ((first, second), rest)

def octets (size : Nat) : Format (Octets size) where
  write value := value.bytes
  read bytes :=
    match Octets.first? size bytes with
    | some value => .ok (value, bytes.drop size)
    | none => .error .endOfInput

/-- A number in so many bytes, least significant first. -/
def number (size : Nat) : Format Nat :=
  (octets size).convert (fun value => Bytes.ofLittle value.bytes)
    fun value => ⟨Bytes.little size value, Bytes.length_little size value⟩

def word16 : Format UInt16 := (number 2).convert Nat.toUInt16 UInt16.toNat

def word32 : Format UInt32 := (number 4).convert Nat.toUInt32 UInt32.toNat

/-- Two's complement. -/
def signed64 : Format Int64 := (number 8).convert (fun value => value.toUInt64.toInt64) fun value => value.toUInt64.toNat

def byte : Format UInt8 := (number 1).convert Nat.toUInt8 UInt8.toNat

/-- A byte that is zero or one. -/
def flag : Format Bool where
  write value := byte.write (if value then 1 else 0)
  read bytes := do
    let (value, rest) ← byte.read bytes
    if value = 0 then return (false, rest)
    if value = 1 then return (true, rest)
    throw (.flag value)

/-- A byte that is zero for nothing, or one and then a value. -/
def optional (format : Format α) : Format (Option α) where
  write
    | none => byte.write 0
    | some value => byte.write 1 ++ format.write value
  read bytes := do
    let (tag, rest) ← byte.read bytes
    if tag = 0 then return (none, rest)
    if tag ≠ 1 then throw (.option tag)
    let (value, rest) ← format.read rest
    return (some value, rest)

def address : Format Address :=
  (word32.pair (word16.pair (octets 16))).convert (fun (relayId, port, ip) => ⟨relayId, port, ip⟩)
    fun value => (value.relayId, value.port, value.ip)

/-- The family is zero for IPv4 and one for IPv6; scope and flow label are not written. -/
def socket : Format SocketAddress where
  write
    | .v4 ip port => word32.write 0 ++ ((octets 4).pair word16).write (ip, port)
    | .v6 ip port _ _ => word32.write 1 ++ ((octets 16).pair word16).write (ip, port)
  read bytes := do
    let (family, rest) ← word32.read bytes
    if family = 0 then
      let ((ip, port), rest) ← ((octets 4).pair word16).read rest
      return (.v4 ip port, rest)
    if family ≠ 1 then throw (.family family)
    let ((ip, port), rest) ← ((octets 16).pair word16).read rest
    return (.v6 ip port 0 0, rest)

def endpoint : Format Endpoint :=
  (word32.pair socket).convert (fun (relayId, socket) => ⟨relayId, socket⟩) fun value => (value.relayId, value.socket)

end Format
end OnionCircuit
