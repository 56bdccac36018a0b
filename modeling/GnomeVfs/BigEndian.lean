import Mathlib.Algebra.Order.Group.Nat
import Mathlib.Data.List.Basic

/- Numbers as bytes, the most significant byte first. -/
namespace BigEndian

/-- The low bytes of a number, so many of them. -/
def encode : Nat → Nat → List UInt8
  | 0, _ => []
  | width + 1, n => UInt8.ofNat (n / 256 ^ width) :: encode width n

/-- The digits behind a number. -/
def decodeFrom (n : Nat) (bytes : List UInt8) : Nat := bytes.foldl (fun n c => n * 256 + c.toNat) n

def decode (bytes : List UInt8) : Nat := decodeFrom 0 bytes

@[simp] theorem length_encode (width n : Nat) : (encode width n).length = width := by
  induction width with
  | zero => rfl
  | succ width ih => rw [encode, List.length_cons, ih]

theorem decodeFrom_encode (width n m : Nat) : decodeFrom m (encode width n) = m * 256 ^ width + n % 256 ^ width := by
  induction width generalizing m with
  | zero => simp [encode, decodeFrom, Nat.mod_one]
  | succ width ih =>
    have digit : (UInt8.ofNat (n / 256 ^ width)).toNat = n / 256 ^ width % 256 := UInt8.toNat_ofNat'
    calc decodeFrom m (encode (width + 1) n)
        = decodeFrom (m * 256 + n / 256 ^ width % 256) (encode width n) := by
          rw [encode, decodeFrom, List.foldl_cons, digit]
          rfl
      _ = (m * 256 + n / 256 ^ width % 256) * 256 ^ width + n % 256 ^ width := ih _
      _ = m * 256 ^ (width + 1) + n % 256 ^ (width + 1) := by
          rw [pow_succ, Nat.mod_mul, Nat.add_mul, Nat.mul_assoc, Nat.mul_comm 256 (256 ^ width),
            Nat.mul_comm (n / 256 ^ width % 256)]
          omega

/-- A number is read back as far as its bytes hold it. -/
theorem decode_encode (width n : Nat) : decode (encode width n) = n % 256 ^ width := by
  rw [decode, decodeFrom_encode, Nat.zero_mul, Nat.zero_add]

theorem decode_encode_of_lt {width n : Nat} (small : n < 256 ^ width) : decode (encode width n) = n := by
  rw [decode_encode, Nat.mod_eq_of_lt small]

theorem decodeFrom_eq (m : Nat) (bytes : List UInt8) : decodeFrom m bytes = m * 256 ^ bytes.length + decode bytes := by
  induction bytes generalizing m with
  | nil => simp [decode, decodeFrom]
  | cons c rest ih =>
    have first : decodeFrom m (c :: rest) = decodeFrom (m * 256 + c.toNat) rest := rfl
    have alone : decode (c :: rest) = decodeFrom (0 * 256 + c.toNat) rest := rfl
    rw [first, alone, ih, ih, List.length_cons, pow_succ, Nat.zero_mul, Nat.zero_add, Nat.add_mul, Nat.mul_assoc,
      Nat.mul_comm 256, Nat.add_assoc]

theorem decode_cons (c : UInt8) (rest : List UInt8) :
    decode (c :: rest) = c.toNat * 256 ^ rest.length + decode rest := by
  have first : decode (c :: rest) = decodeFrom (0 * 256 + c.toNat) rest := rfl
  rw [first, decodeFrom_eq, Nat.zero_mul, Nat.zero_add]

theorem decode_lt (bytes : List UInt8) : decode bytes < 256 ^ bytes.length := by
  induction bytes with
  | nil => exact Nat.zero_lt_one
  | cons c rest ih =>
    have digit : (c.toNat + 1) * 256 ^ rest.length ≤ 256 * 256 ^ rest.length :=
      Nat.mul_le_mul_right _ c.toNat_lt
    rw [decode_cons, List.length_cons, pow_succ, Nat.mul_comm (256 ^ rest.length)]
    rw [Nat.add_mul, Nat.one_mul] at digit
    omega

/-- Only the low bytes of a number count. -/
theorem encode_add_mul (width n m : Nat) : encode width (n * 256 ^ width + m) = encode width m := by
  induction width generalizing n with
  | zero => rfl
  | succ width ih =>
    have split : n * 256 ^ (width + 1) = n * 256 * 256 ^ width := by
      rw [pow_succ, Nat.mul_comm (256 ^ width), Nat.mul_assoc]
    have positive : 0 < 256 ^ width := Nat.pow_pos (by decide)
    rw [encode, encode, split, ih, Nat.add_comm, Nat.add_mul_div_right _ _ positive, UInt8.ofNat_add]
    simp

theorem encode_decode (bytes : List UInt8) : encode bytes.length (decode bytes) = bytes := by
  induction bytes with
  | nil => rfl
  | cons c rest ih =>
    have positive : 0 < 256 ^ rest.length := Nat.pow_pos (by decide)
    rw [List.length_cons, encode, decode_cons, encode_add_mul, ih, Nat.add_comm, Nat.add_mul_div_right _ _ positive,
      Nat.div_eq_of_lt (decode_lt rest), Nat.zero_add, UInt8.ofNat_toNat]

end BigEndian
