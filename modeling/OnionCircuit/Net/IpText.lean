import OnionCircuit.Net.Ip
import OnionCircuit.Text.Digits

/-! The text of internet addresses. The longest run of at least two zero groups of
an IPv6 address is written as two colons, the first of several; a mapped IPv4
address keeps its dots. The reader takes every valid spelling. -/

namespace OnionCircuit

/-- The texts with a separator between each two. -/
def joinWith (separator : Char) : List (List Char) → List Char
  | [] => []
  | [text] => text
  | text :: texts => text ++ separator :: joinWith separator texts

def expect (char : Char) : List Char → Option (List Char)
  | [] => none
  | head :: rest => if head = char then some rest else none

namespace Ipv4

def text (address : Ipv4) : List Char := joinWith '.' (address.bytes.map fun byte => Digits.decimal byte.toNat)

def octet : Digits.Field := ⟨10, some 3, false, 255⟩

def readOctets : Nat → List Char → Option (Bytes × List Char)
  | 0, chars => some ([], chars)
  | 1, chars => do
    let (value, rest) ← octet.read chars
    return ([value.toUInt8], rest)
  | count + 1, chars => do
    let (value, rest) ← octet.read chars
    let (values, rest) ← readOctets count (← expect '.' rest)
    return (value.toUInt8 :: values, rest)

def read (chars : List Char) : Option (Ipv4 × List Char) := do
  let (bytes, rest) ← readOctets 4 chars
  return (← Octets.ofBytes? 4 bytes, rest)

end Ipv4

namespace Ipv6

/-- A run of zero groups: where it starts and how many there are. -/
structure Run where
  start : Nat
  length : Nat
deriving DecidableEq

/-- The longest run of zeros from a position on, given the one that ends there and the best so far. -/
def longestRun : List Nat → Nat → Nat → Run → Run
  | [], _, _, best => best
  | group :: groups, position, length, best =>
    if group = 0 then
      let run : Run := ⟨position - length, length + 1⟩
      longestRun groups (position + 1) (length + 1) (if best.length < run.length then run else best)
    else longestRun groups (position + 1) 0 best

def groupsText (groups : List Nat) : List Char := joinWith ':' (groups.map (Digits.text 16))

def text (address : Ipv6) : List Char :=
  match address.toIpv4? with
  | some inner => "::ffff:".toList ++ inner.text
  | none =>
    let groups := address.groups
    let run := longestRun groups 0 0 ⟨0, 0⟩
    if 1 < run.length then
      groupsText (groups.take run.start) ++ ':' :: ':' :: groupsText (groups.drop (run.start + run.length))
    else groupsText groups

def group : Digits.Field := ⟨16, some 4, true, 65535⟩

def separated (first : Bool) (chars : List Char) : Option (List Char) :=
  if first then some chars else expect ':' chars

/-- What was read of at most so many groups. -/
structure Groups where
  values : List Nat
  endsInIpv4 : Bool
  rest : List Char

/-- Reads groups as long as they follow one another; where two are still allowed, an IPv4
address takes the place of both and ends the reading. -/
def readGroups : Nat → Bool → List Char → Groups
  | 0, _, chars => ⟨[], false, chars⟩
  | more + 1, first, chars =>
    let embedded := if more = 0 then none else (separated first chars).bind Ipv4.read
    match embedded with
    | some (inner, rest) => ⟨(Bytes.chunks 2 inner.bytes).map Bytes.ofBig, true, rest⟩
    | none =>
      match (separated first chars).bind group.read with
      | some (value, rest) =>
        let tail := readGroups more false rest
        ⟨value :: tail.values, tail.endsInIpv4, tail.rest⟩
      | none => ⟨[], false, chars⟩

/-- Eight groups, or fewer with two colons for at least one zero group. -/
def read (chars : List Char) : Option (Ipv6 × List Char) := do
  let head := readGroups 8 true chars
  if head.values.length = 8 then
    return (← ofGroups? head.values, head.rest)
  if head.endsInIpv4 then none
  let rest ← expect ':' (← expect ':' head.rest)
  let tail := readGroups (7 - head.values.length) true rest
  let zeros := List.replicate (8 - head.values.length - tail.values.length) 0
  return (← ofGroups? (head.values ++ zeros ++ tail.values), tail.rest)

end Ipv6
end OnionCircuit
