import OnionCircuit.Bytes.Basic

/-! Numbers written as bytes, least significant byte first or last. A number
below `span count` survives being written with `count` bytes and read back. -/

namespace OnionCircuit.Bytes

/-- How many numbers can be written with `count` bytes. -/
def span : Nat → Nat
  | 0 => 1
  | count + 1 => 256 * span count

theorem span_succ (count : Nat) : span (count + 1) = 256 * span count := rfl

/-- `count` bytes of a number, least significant first. -/
def little : Nat → Nat → Bytes
  | 0, _ => []
  | count + 1, number => number.toUInt8 :: little count (number / 256)

def ofLittle : Bytes → Nat
  | [] => 0
  | byte :: rest => byte.toNat + 256 * ofLittle rest

/-- `count` bytes of a number, most significant first. -/
def big (count number : Nat) : Bytes := (little count number).reverse

def ofBig (bytes : Bytes) : Nat := ofLittle bytes.reverse

@[simp] theorem length_little (count number : Nat) : (little count number).length = count := by
  induction count generalizing number with
  | zero => rfl
  | succ count ih => simp [little, ih]

@[simp] theorem length_big (count number : Nat) : (big count number).length = count := by simp [big]

theorem ofLittle_lt (bytes : Bytes) : ofLittle bytes < span bytes.length := by
  induction bytes with
  | nil => exact Nat.zero_lt_one
  | cons byte rest ih =>
    have small := byte.toNat_lt
    rw [List.length_cons, span_succ, ofLittle]
    omega

theorem ofLittle_little {count number : Nat} (fits : number < span count) : ofLittle (little count number) = number := by
  induction count generalizing number with
  | zero => exact (Nat.lt_one_iff.mp fits).symm
  | succ count ih =>
    rw [span_succ] at fits
    have quotient : number / 256 < span count := by omega
    simp only [little, ofLittle, ih quotient, Nat.toUInt8, UInt8.toNat_ofNat']
    omega

theorem little_ofLittle (bytes : Bytes) : little bytes.length (ofLittle bytes) = bytes := by
  induction bytes with
  | nil => rfl
  | cons byte rest ih =>
    have small := byte.toNat_lt
    have head : (byte.toNat + 256 * ofLittle rest).toUInt8 = byte := by
      apply UInt8.toNat_inj.mp
      simp only [Nat.toUInt8, UInt8.toNat_ofNat']
      omega
    have tail : (byte.toNat + 256 * ofLittle rest) / 256 = ofLittle rest := by omega
    rw [List.length_cons, ofLittle, little, head, tail, ih]

/-- A word survives being written with four bytes and read back. -/
theorem ofLittle_word (value : UInt32) : (ofLittle (little 4 value.toNat)).toUInt32 = value := by
  have small : value.toNat < span 4 := value.toNat_lt
  rw [ofLittle_little small]
  exact UInt32.ofNat_toNat

theorem ofLittle_halfWord (value : UInt16) : (ofLittle (little 2 value.toNat)).toUInt16 = value := by
  have small : value.toNat < span 2 := value.toNat_lt
  rw [ofLittle_little small]
  exact UInt16.ofNat_toNat

theorem little_word {bytes : Bytes} (exact : bytes.length = 4) : little 4 (ofLittle bytes).toUInt32.toNat = bytes := by
  have small := ofLittle_lt bytes
  have same := little_ofLittle bytes
  rw [exact] at small same
  rwa [UInt32.toNat_ofNat_of_lt' small]

theorem little_halfWord {bytes : Bytes} (exact : bytes.length = 2) :
    little 2 (ofLittle bytes).toUInt16.toNat = bytes := by
  have small := ofLittle_lt bytes
  have same := little_ofLittle bytes
  rw [exact] at small same
  rwa [UInt16.toNat_ofNat_of_lt' small]

theorem little_zero (count : Nat) : little count 0 = zeros count := by
  induction count with
  | zero => rfl
  | succ count ih =>
    rw [little, Nat.zero_div, ih]
    rfl

theorem ofLittle_zeros (count : Nat) : ofLittle (zeros count) = 0 := by
  induction count with
  | zero => rfl
  | succ count ih =>
    have rest : ofLittle (zeros (count + 1)) = 0 + 256 * ofLittle (zeros count) := rfl
    rw [rest, ih]

theorem ofLittle_eq_zero_iff {bytes : Bytes} : ofLittle bytes = 0 ↔ bytes = zeros bytes.length := by
  refine ⟨fun zero => ?_, fun zero => ?_⟩
  · have same := little_ofLittle bytes
    rw [zero, little_zero] at same
    exact same.symm
  · rw [zero, ofLittle_zeros]

theorem ofBig_big {count number : Nat} (fits : number < span count) : ofBig (big count number) = number := by
  simp [ofBig, big, ofLittle_little fits]

theorem big_ofBig (bytes : Bytes) : big bytes.length (ofBig bytes) = bytes := by
  have same := little_ofLittle bytes.reverse
  rw [List.length_reverse] at same
  rw [big, ofBig, same, List.reverse_reverse]

end OnionCircuit.Bytes
