import Mathlib.Algebra.Group.Nat.Defs
import Mathlib.Algebra.Ring.Int.Defs
import Mathlib.Data.List.Basic

/- C strings as byte lists without their terminating NUL. A pointer into a string
is the suffix it points at, so the distance of two pointers is a length difference.
An `int` is an integer that is brought into its range behind each operation. -/
namespace GnomeVfs

abbrev Bytes := List UInt8

/-- What is asked of the bytes of a string is decided by a walk along it, not by a walk
through all values of a byte. -/
instance (priority := high) decidableForallBytes {p : UInt8 → Prop} [DecidablePred p] {s : Bytes} :
    Decidable (∀ c ∈ s, p c) := List.decidableBAll p s

instance (priority := high) decidableExistsBytes {p : UInt8 → Prop} [DecidablePred p] {s : Bytes} :
    Decidable (∃ c ∈ s, p c) := List.decidableBEx p s

/-- The bytes of a string literal of the source. -/
def ascii (s : String) : Bytes := s.toList.map Char.toUInt8

@[simp] abbrev chrHash : UInt8 := 35
@[simp] abbrev chrPercent : UInt8 := 37
@[simp] abbrev chrDot : UInt8 := 46
@[simp] abbrev chrSlash : UInt8 := 47
@[simp] abbrev chrColon : UInt8 := 58
@[simp] abbrev chrAt : UInt8 := 64
@[simp] abbrev chrOpen : UInt8 := 91
@[simp] abbrev chrClose : UInt8 := 93

example : [chrHash, chrPercent, chrDot, chrSlash, chrColon, chrAt, chrOpen, chrClose] =
    ascii "#%./:@[]" := by decide

/-- `s[i]`, which is the terminator at the end of the string. -/
def byteAt (s : Bytes) (i : Nat) : UInt8 := s.getD i 0

def isDigit (c : UInt8) : Bool := 48 ≤ c && c ≤ 57

def isUpper (c : UInt8) : Bool := 65 ≤ c && c ≤ 90

def isAlnum (c : UInt8) : Bool := isDigit c || isUpper c || (97 ≤ c && c ≤ 122)

def toLower (c : UInt8) : UInt8 := if isUpper c then c + 32 else c

/-- `g_ascii_strdown`: bytes other than `A`..`Z` are left alone. -/
def strdown (s : Bytes) : Bytes := s.map toLower

theorem toLower_of_not_upper {c : UInt8} (lower : isUpper c = false) : toLower c = c := by
  simp [toLower, lower]

theorem isUpper_toLower (c : UInt8) : isUpper (toLower c) = false := by
  by_cases upper : isUpper c = true
  · have bounds : 65 ≤ c.toNat ∧ c.toNat ≤ 90 := by
      simpa [isUpper, UInt8.le_iff_toNat_le] using upper
    have shifted : (c + 32).toNat = c.toNat + 32 := by
      rw [UInt8.toNat_add]
      simp
      omega
    have above : ¬ c + 32 ≤ 90 := by
      rw [UInt8.le_iff_toNat_le, shifted]
      simp
      omega
    rw [toLower, if_pos upper]
    simp [isUpper, above]
  · rw [toLower, if_neg upper]
    simpa using upper

theorem strdown_of_lower {s : Bytes} (lower : ∀ c ∈ s, isUpper c = false) : strdown s = s := by
  simpa [strdown] using List.map_congr_left fun c member => toLower_of_not_upper (lower c member)

theorem strdown_lower (s : Bytes) : ∀ c ∈ strdown s, isUpper c = false := by
  intro c member
  obtain ⟨d, -, rfl⟩ := List.mem_map.mp member
  exact isUpper_toLower d

@[simp] theorem strdown_strdown (s : Bytes) : strdown (strdown s) = strdown s :=
  strdown_of_lower (strdown_lower s)

@[simp] theorem strdown_length (s : Bytes) : (strdown s).length = s.length := List.length_map ..

section Scan

variable {α : Type} (p : α → Bool)

/-- The pointer to the first element that satisfies `p`. -/
def scanTo : List α → Option (List α)
  | [] => none
  | x :: xs => if p x then some (x :: xs) else scanTo xs

@[simp] theorem scanTo_nil : scanTo p [] = none := rfl

theorem scanTo_cons_of_pos {x : α} (hit : p x = true) (xs : List α) :
    scanTo p (x :: xs) = some (x :: xs) := by simp [scanTo, hit]

theorem scanTo_append_of_clear {front : List α} (clear : ∀ x ∈ front, p x = false)
    (back : List α) : scanTo p (front ++ back) = scanTo p back := by
  induction front with
  | nil => rfl
  | cons x xs ih =>
    have miss := clear x (by simp)
    simp only [List.cons_append, scanTo, miss, Bool.false_eq_true, ↓reduceIte]
    exact ih fun y member => clear y (by simp [member])

theorem scanTo_eq_none {xs : List α} : scanTo p xs = none ↔ ∀ x ∈ xs, p x = false := by
  induction xs with
  | nil => simp
  | cons x xs ih =>
    by_cases hit : p x = true
    · simp [scanTo, hit]
    · simp [scanTo, hit, ih]

/-- A scan splits its input right before the first hit. -/
theorem scanTo_eq_some {xs found : List α} :
    scanTo p xs = some found ↔
      ∃ front x back, xs = front ++ x :: back ∧ found = x :: back ∧ p x = true ∧
        ∀ y ∈ front, p y = false := by
  induction xs with
  | nil => simp
  | cons x xs ih =>
    by_cases hit : p x = true
    · simp only [scanTo, hit, if_true, Option.some.injEq]
      constructor
      · rintro rfl
        exact ⟨[], x, xs, rfl, rfl, hit, by simp⟩
      · rintro ⟨front, y, back, split, rfl, -, clear⟩
        cases front with
        | nil => simpa using split
        | cons z front =>
          have := clear z (by simp)
          simp only [List.cons_append, List.cons.injEq] at split
          simp [← split.1, hit] at this
    · simp only [scanTo, hit, Bool.false_eq_true, if_false, ih]
      constructor
      · rintro ⟨front, y, back, rfl, rfl, found, clear⟩
        refine ⟨x :: front, y, back, rfl, rfl, found, ?_⟩
        simpa [hit] using clear
      · rintro ⟨front, y, back, split, rfl, found, clear⟩
        cases front with
        | nil =>
          simp only [List.nil_append, List.cons.injEq] at split
          simp [split.1, found] at hit
        | cons z front =>
          simp only [List.cons_append, List.cons.injEq] at split
          exact ⟨front, y, back, split.2, rfl, found, fun w member => clear w (by simp [member])⟩

end Scan

/-- `g_strndup (from, to - from)`. -/
def strdupTo {α : Type} (start stop : List α) : List α := start.take (start.length - stop.length)

@[simp] theorem strdupTo_append {α : Type} (token stop : List α) :
    strdupTo (token ++ stop) stop = token := by
  simp [strdupTo]

/-- `strchr` for a byte of the string proper. -/
def strchr (s : Bytes) (c : UInt8) : Option Bytes := scanTo (· == c) s

/-- The part of `s` in front of its last `c`: what remains when `*strrchr (s, c) = 0`. -/
def cutLast (s : Bytes) (c : UInt8) : Option Bytes :=
  (scanTo (· == c) s.reverse).map fun found => found.tail.reverse

theorem cutLast_append {c : UInt8} (front : Bytes) {back : Bytes} (clear : c ∉ back) :
    cutLast (front ++ c :: back) c = some front := by
  have behind : ∀ x ∈ back.reverse, (x == c) = false := by
    intro x member
    have : x ∈ back := by simpa using member
    simp only [beq_eq_false_iff_ne, ne_eq]
    rintro rfl
    exact clear this
  simp only [cutLast, List.reverse_append, List.reverse_cons, List.append_assoc]
  rw [scanTo_append_of_clear _ behind]
  simp [scanTo]

theorem cutLast_eq_none {c : UInt8} {s : Bytes} (clear : c ∉ s) : cutLast s c = none := by
  simp only [cutLast, Option.map_eq_none_iff, scanTo_eq_none]
  intro x member
  simp only [beq_eq_false_iff_ne, ne_eq]
  rintro rfl
  exact clear (by simpa using member)

/-- A `gint` after arithmetic that gives `n`. -/
def gint (n : Int) : Int := n.bmod (2 ^ 32)

theorem gint_eq_self {n : Int} (low : -2 ^ 31 ≤ n) (high : n < 2 ^ 31) : gint n = n :=
  Int.bmod_eq_of_le (by omega) (by omega)

theorem gint_eq_self_iff {n : Nat} : gint n = n ↔ n < 2 ^ 31 := by
  constructor
  · intro same
    have above : gint n < (2 ^ 32 + 1) / 2 := Int.bmod_lt (by decide)
    omega
  · intro small
    exact gint_eq_self (by omega) (by omega)

/-- Doubling a count that has run over is doubling the count. -/
theorem gint_mul_two (n : Int) : gint (gint n * 2) = gint (n * 2) := Int.bmod_mul_bmod

theorem gint_succ (n : Int) : gint (gint n + 1) = gint (n + 1) := Int.bmod_add_bmod

/-- An offset that has been put into an `int`, and `none` where it is negative there. -/
def intOffset (n : Nat) : Option Nat := if gint n < 0 then none else some (gint n).toNat

theorem intOffset_eq {n : Nat} (small : n < 2 ^ 31) : intOffset n = some n := by
  have same := gint_eq_self_iff.mpr small
  rw [intOffset, same, if_neg (by omega), Int.toNat_natCast]

end GnomeVfs
