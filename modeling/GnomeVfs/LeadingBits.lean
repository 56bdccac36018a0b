import GnomeVfs.BigEndian
import Mathlib.Data.Nat.Bitwise

/- The bits of a run of bytes, from the most significant bit of the first byte on. -/
namespace LeadingBits

open BigEndian

def bit (bytes : List UInt8) (i : Nat) : Bool := (bytes.getD (i / 8) 0).toNat.testBit (7 - i % 8)

/-- The first bits of two runs are the same. -/
def Agree (n : Nat) (xs ys : List UInt8) : Prop := ∀ i < n, bit xs i = bit ys i

instance decidableAgree (n : Nat) (xs ys : List UInt8) : Decidable (Agree n xs ys) := Nat.decidableBallLT n _

section Agree

variable {n m : Nat} {xs ys zs : List UInt8}

@[refl] theorem Agree.refl (n : Nat) (xs : List UInt8) : Agree n xs xs := fun _ _ => rfl

@[symm] theorem Agree.symm (same : Agree n xs ys) : Agree n ys xs := fun i inside => (same i inside).symm

@[trans] theorem Agree.trans (first : Agree n xs ys) (second : Agree n ys zs) : Agree n xs zs :=
  fun i inside => (first i inside).trans (second i inside)

theorem agree_equivalence (n : Nat) : Equivalence (Agree n) := ⟨Agree.refl n, Agree.symm, Agree.trans⟩

theorem Agree.mono (shorter : m ≤ n) (same : Agree n xs ys) : Agree m xs ys :=
  fun i inside => same i (Nat.lt_of_lt_of_le inside shorter)

theorem agree_add : Agree (n + m) xs ys ↔ Agree n xs ys ∧ ∀ i < m, bit xs (n + i) = bit ys (n + i) := by
  constructor
  · intro same
    exact ⟨same.mono (Nat.le_add_right n m), fun i inside => same (n + i) (by omega)⟩
  · rintro ⟨front, back⟩ i inside
    by_cases first : i < n
    · exact front i first
    · have behind := back (i - n) (by omega)
      rwa [Nat.add_sub_cancel' (Nat.le_of_not_lt first)] at behind

end Agree

theorem testBit_byte (c : UInt8) {j : Nat} (beyond : 8 ≤ j) : c.toNat.testBit j = false :=
  Nat.testBit_lt_two_pow (Nat.lt_of_lt_of_le c.toNat_lt (Nat.pow_le_pow_right (by decide) beyond))

/-- A byte is its eight bits, the most significant one first. -/
theorem byte_eq_iff (c d : UInt8) : c = d ↔ ∀ i < 8, c.toNat.testBit (7 - i) = d.toNat.testBit (7 - i) := by
  constructor
  · rintro rfl i -
    rfl
  · intro same
    apply UInt8.toNat_inj.mp
    apply Nat.eq_of_testBit_eq
    intro j
    by_cases inside : j < 8
    · have at_j := same (7 - j) (by omega)
      rwa [show 7 - (7 - j) = j by omega] at at_j
    · rw [testBit_byte c (by omega), testBit_byte d (by omega)]

/-- A byte under a mask of its first bits. -/
theorem masked_eq_iff (c d : UInt8) {r : Nat} (inside : r ≤ 8) :
    c.toNat &&& 255 <<< (8 - r) = d.toNat &&& 255 <<< (8 - r) ↔
      ∀ i < r, c.toNat.testBit (7 - i) = d.toNat.testBit (7 - i) := by
  have mask (j : Nat) : (255 <<< (8 - r)).testBit j = (decide (8 - r ≤ j) && decide (j < 16 - r)) := by
    have ones : (255 : Nat) = 2 ^ 8 - 1 := rfl
    rw [Nat.testBit_shiftLeft, ones, Nat.testBit_two_pow_sub_one]
    by_cases low : 8 - r ≤ j
    · have shift : j - (8 - r) < 8 ↔ j < 16 - r := by omega
      simp [low, shift]
    · simp [low]
  constructor
  · intro same i first
    have at_i := congrArg (fun n => n.testBit (7 - i)) same
    simp only [Nat.testBit_and, mask] at at_i
    have low : 8 - r ≤ 7 - i := by omega
    have high : 7 - i < 16 - r := by omega
    simpa [low, high] using at_i
  · intro same
    apply Nat.eq_of_testBit_eq
    intro j
    rw [Nat.testBit_and, Nat.testBit_and, mask]
    by_cases masked : 8 - r ≤ j ∧ j < 8
    · have at_j := same (7 - j) (by omega)
      rw [show 7 - (7 - j) = j by omega] at at_j
      rw [at_j]
    · by_cases low : 8 - r ≤ j
      · rw [testBit_byte c (by omega), testBit_byte d (by omega)]
      · simp [low]

section Bytes

variable {xs ys : List UInt8}

theorem bit_mul_add (xs : List UInt8) (k : Nat) {i : Nat} (inside : i < 8) :
    bit xs (8 * k + i) = (xs.getD k 0).toNat.testBit (7 - i) := by
  rw [bit, show (8 * k + i) / 8 = k by omega, show (8 * k + i) % 8 = i by omega]

theorem byte_eq_iff_bits (k : Nat) :
    xs.getD k 0 = ys.getD k 0 ↔ ∀ i < 8, bit xs (8 * k + i) = bit ys (8 * k + i) := by
  rw [byte_eq_iff]
  refine forall₂_congr fun i inside => ?_
  rw [bit_mul_add xs k inside, bit_mul_add ys k inside]

theorem agree_bytes (k : Nat) : Agree (8 * k) xs ys ↔ ∀ j < k, xs.getD j 0 = ys.getD j 0 := by
  constructor
  · intro same j inside
    exact (byte_eq_iff_bits j).mpr fun i first => same _ (by omega)
  · intro same i inside
    have whole := same (i / 8) (by omega)
    rw [bit, bit, whole]

/-- Whole bytes, and the first bits of the byte behind them. -/
theorem agree_iff (n : Nat) : Agree n xs ys ↔
    (∀ j < n / 8, xs.getD j 0 = ys.getD j 0) ∧
      (xs.getD (n / 8) 0).toNat &&& 255 <<< (8 - n % 8) = (ys.getD (n / 8) 0).toNat &&& 255 <<< (8 - n % 8) := by
  have split : n = 8 * (n / 8) + n % 8 := by omega
  have rest : (∀ i < n % 8, bit xs (8 * (n / 8) + i) = bit ys (8 * (n / 8) + i)) ↔
      ∀ i < n % 8, (xs.getD (n / 8) 0).toNat.testBit (7 - i) = (ys.getD (n / 8) 0).toNat.testBit (7 - i) := by
    refine forall₂_congr fun i inside => ?_
    rw [bit_mul_add xs _ (by omega), bit_mul_add ys _ (by omega)]
  rw [masked_eq_iff _ _ (by omega), ← rest, ← agree_bytes, ← agree_add, ← split]

theorem agree_all (length : xs.length = ys.length) : Agree (8 * xs.length) xs ys ↔ xs = ys := by
  constructor
  · intro same
    have bytes := (agree_bytes xs.length).mp same
    refine List.ext_getElem length fun j inside other => ?_
    have at_j := bytes j inside
    rwa [List.getD_eq_getElem _ _ inside, List.getD_eq_getElem _ _ other] at at_j
  · rintro rfl
    exact .refl _ _

/-- The bits of a run are those of the number it writes. -/
theorem bit_eq_testBit {i : Nat} (inside : i < 8 * xs.length) :
    bit xs i = (decode xs).testBit (8 * xs.length - 1 - i) := by
  induction xs generalizing i with
  | nil => simp at inside
  | cons c rest ih =>
    have whole : decode (c :: rest) = 2 ^ (8 * rest.length) * c.toNat + decode rest := by
      rw [decode_cons, Nat.mul_comm, pow_mul, show (2 : Nat) ^ 8 = 256 from rfl]
    have low : decode rest < 2 ^ (8 * rest.length) := by
      rw [pow_mul]
      exact decode_lt rest
    rw [whole, Nat.testBit_two_pow_mul_add _ low, List.length_cons] at *
    by_cases first : i < 8
    · have here : bit (c :: rest) i = c.toNat.testBit (7 - i) := by
        rw [bit, Nat.div_eq_of_lt first, Nat.mod_eq_of_lt first, List.getD_cons_zero]
      rw [if_neg (by omega), here]
      congr 1
      omega
    · have later : bit (c :: rest) i = bit rest (i - 8) := by
        rw [bit, bit, show i / 8 = (i - 8) / 8 + 1 by omega, show (i - 8) % 8 = i % 8 by omega, List.getD_cons_succ]
      rw [if_pos (by omega), later, ih (by omega)]
      congr 1
      omega

/-- The bytes the other way round. -/
theorem bit_reverse {i : Nat} (inside : i < 8 * xs.length) :
    bit xs.reverse i = bit xs (8 * (xs.length - 1 - i / 8) + i % 8) := by
  have byte : i / 8 < xs.length := by omega
  rw [bit_mul_add xs _ (Nat.mod_lt i (by decide)), bit, List.getD_eq_getElem _ _ (by simpa using byte),
    List.getElem_reverse, List.getD_eq_getElem]

theorem bit_zipWith_and (length : xs.length = ys.length) (i : Nat) :
    bit (List.zipWith (· &&& ·) xs ys) i = (bit xs i && bit ys i) := by
  rw [bit, bit, bit]
  by_cases inside : i / 8 < xs.length
  · rw [List.getD_eq_getElem _ _ (by simpa [← length] using inside), List.getElem_zipWith,
      List.getD_eq_getElem _ _ inside, List.getD_eq_getElem _ _ (length ▸ inside), UInt8.toNat_and, Nat.testBit_and]
  · rw [List.getD_eq_default _ _ (by simp [← length]; omega), List.getD_eq_default _ _ (by omega)]
    simp

end Bytes

end LeadingBits
