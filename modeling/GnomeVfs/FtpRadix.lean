import Mathlib.Data.Nat.Bitwise
import Mathlib.Tactic.IntervalCases
import GnomeVfs.CString

/- The texts of the GSSAPI exchanges of the FTP method (`radix_decode` and `radix_encode`). -/
namespace GnomeVfs.Ftp

def radixN : Bytes := ascii "ABCDEFGHIJKLMNOPQRSTUVWXYZabcdefghijklmnopqrstuvwxyz0123456789+/"

def pad : UInt8 := 61

/-- `radixN[d]`. -/
def radixAt (d : UInt8) : UInt8 := byteAt radixN d.toNat

/-- `p - radixN`, where `strchr` finds the character at `p`. -/
def radixValue (x : UInt8) : Option UInt8 := (radixN.findIdx? fun y => y = x).map UInt8.ofNat

/-- What is behind the loop of `radix_decode`, with the rest of the text. -/
def radixFinish (i : Nat) (D : UInt8) (s rest : Bytes) : Option Bytes :=
  match i % 4 with
  | 1 => none
  | 2 => if D &&& 15 ≠ 0 then none else if rest ≠ [pad, pad] then none else some s
  | 3 => if D &&& 3 ≠ 0 then none else if rest ≠ [pad] then none else some s
  | _ => some s

/-- The loop of `radix_decode`, at the `i`th character. -/
def radixDecodeLoop (i : Nat) (D c : UInt8) (s : Bytes) : Bytes → Option Bytes
  | [] => radixFinish i D s []
  | x :: rest =>
    if x = pad then radixFinish i D s (x :: rest)
    else
      match radixValue x with
      | none => none
      | some D =>
        match i % 4 with
        | 0 => radixDecodeLoop (i + 1) D (D <<< 2) s rest
        | 1 => radixDecodeLoop (i + 1) D ((D &&& 15) <<< 4) (s ++ [c ||| D >>> 4]) rest
        | 2 => radixDecodeLoop (i + 1) D ((D &&& 3) <<< 6) (s ++ [c ||| D >>> 2]) rest
        | _ => radixDecodeLoop (i + 1) D c (s ++ [c ||| D]) rest

/-- `radix_decode`, with `*len`, for buffers whose bytes an `int` counts. -/
def radixDecode (inbuf : Bytes) : Option (Bytes × Nat) := (radixDecodeLoop 0 0 0 [] inbuf).map fun s => (s, s.length)

/-- The loop of `radix_encode`, at the `i`th byte, and what is behind it. -/
def radixEncodeLoop (i : Nat) (c : UInt8) : Bytes → Bytes
  | [] =>
    match i % 3 with
    | 1 => [radixAt c, pad, pad]
    | 2 => [radixAt c, pad]
    | _ => []
  | x :: rest =>
    match i % 3 with
    | 0 => radixAt (x >>> 2) :: radixEncodeLoop (i + 1) ((x &&& 3) <<< 4) rest
    | 1 => radixAt (c ||| x >>> 4) :: radixEncodeLoop (i + 1) ((x &&& 15) <<< 2) rest
    | _ => radixAt (c ||| x >>> 6) :: radixAt (x &&& 63) :: radixEncodeLoop (i + 1) 0 rest

def radixEncode (inbuf : Bytes) : Bytes := radixEncodeLoop 0 0 inbuf

theorem radixN_digits : ∀ n < 64, radixValue (radixAt (UInt8.ofNat n)) = some (UInt8.ofNat n) ∧
    radixAt (UInt8.ofNat n) ≠ pad := by
  decide +kernel

theorem radixValue_radixAt {d : UInt8} (digit : d < 64) : radixValue (radixAt d) = some d := by
  have here := (radixN_digits d.toNat (by simpa [UInt8.lt_iff_toNat_lt] using digit)).1
  rwa [UInt8.ofNat_toNat] at here

theorem radixAt_ne_pad {d : UInt8} (digit : d < 64) : radixAt d ≠ pad := by
  have here := (radixN_digits d.toNat (by simpa [UInt8.lt_iff_toNat_lt] using digit)).2
  rwa [UInt8.ofNat_toNat] at here

/-- A digit is found where it is. -/
theorem radixAt_of_value {x d : UInt8} (value : radixValue x = some d) : radixAt d = x := by
  obtain ⟨n, found, rfl⟩ := Option.map_eq_some_iff.mp value
  obtain ⟨below, here, -⟩ := List.findIdx?_eq_some_iff_getElem.mp found
  have short : n < 64 := below
  have small : (UInt8.ofNat n).toNat = n := by
    rw [UInt8.toNat_ofNat']
    omega
  rw [radixAt, small, byteAt, List.getD_eq_getElem _ _ below]
  simpa using here

theorem lt_of_masked {d : UInt8} (masked : d &&& 63 = d) : d < 64 := by
  rw [UInt8.lt_iff_toNat_lt, ← masked, UInt8.toNat_and]
  exact Nat.lt_of_le_of_lt Nat.and_le_right (by decide)

theorem radixValue_lt {x d : UInt8} (value : radixValue x = some d) : d < 64 := by
  obtain ⟨n, found, rfl⟩ := Option.map_eq_some_iff.mp value
  obtain ⟨below, -⟩ := List.findIdx?_eq_some_iff_getElem.mp found
  have short : n < 64 := below
  rw [UInt8.lt_iff_toNat_lt, UInt8.toNat_ofNat']
  show n % 256 < 64
  omega

section Bits

variable {x y z d e f g : UInt8}

theorem eq_of_bits (bits : ∀ i < 8, x.toBitVec.getLsbD i = y.toBitVec.getLsbD i) : x = y :=
  UInt8.eq_of_toBitVec_eq (BitVec.eq_of_getLsbD_eq bits)

theorem digits_of_bytes : x >>> 2 < 64 ∧ (x &&& 3) <<< 4 ||| y >>> 4 < 64 ∧ (y &&& 15) <<< 2 ||| z >>> 6 < 64 ∧ z &&& 63 < 64 ∧
    (x &&& 3) <<< 4 < 64 ∧ (y &&& 15) <<< 2 < 64 := by
  refine ⟨lt_of_masked ?_, lt_of_masked ?_, lt_of_masked ?_, lt_of_masked ?_, lt_of_masked ?_, lt_of_masked ?_⟩ <;>
    (apply eq_of_bits; intro i below; interval_cases i <;> simp)

theorem first_of_digits : (x >>> 2) <<< 2 ||| ((x &&& 3) <<< 4 ||| y >>> 4) >>> 4 = x := by
  apply eq_of_bits
  intro i below
  interval_cases i <;> simp

theorem second_of_digits :
    (((x &&& 3) <<< 4 ||| y >>> 4) &&& 15) <<< 4 ||| ((y &&& 15) <<< 2 ||| z >>> 6) >>> 2 = y := by
  apply eq_of_bits
  intro i below
  interval_cases i <;> simp

theorem third_of_digits : (((y &&& 15) <<< 2 ||| z >>> 6) &&& 3) <<< 6 ||| z &&& 63 = z := by
  apply eq_of_bits
  intro i below
  interval_cases i <;> simp

theorem masked_of_lt (digit : d < 64) : d &&& 63 = d := by
  apply UInt8.toNat_inj.mp
  rw [UInt8.toNat_and]
  exact (Nat.and_two_pow_sub_one_eq_mod d.toNat 6).trans (Nat.mod_eq_of_lt (by simpa [UInt8.lt_iff_toNat_lt] using digit))

theorem first_of_bytes (digit : d < 64) : (d <<< 2 ||| e >>> 4) >>> 2 = d ||| e >>> 6 := by
  rw [← masked_of_lt digit]
  apply eq_of_bits
  intro i below
  interval_cases i <;> simp

theorem shifted_out (digit : d < 64) : d >>> 6 = 0 := by
  rw [← masked_of_lt digit]
  apply eq_of_bits
  intro i below
  interval_cases i <;> simp

theorem second_of_bytes (digit : e < 64) :
    ((d <<< 2 ||| e >>> 4) &&& 3) <<< 4 ||| ((e &&& 15) <<< 4 ||| f >>> 2) >>> 4 = e ||| f >>> 6 := by
  rw [← masked_of_lt digit]
  apply eq_of_bits
  intro i below
  interval_cases i <;> simp

theorem third_of_bytes (digit : f < 64) :
    (((e &&& 15) <<< 4 ||| f >>> 2) &&& 15) <<< 2 ||| ((f &&& 3) <<< 6 ||| g) >>> 6 = f ||| g >>> 6 := by
  rw [← masked_of_lt digit]
  apply eq_of_bits
  intro i below
  interval_cases i <;> simp

theorem fourth_of_bytes (digit : g < 64) : ((f &&& 3) <<< 6 ||| g) &&& 63 = g := by
  rw [← masked_of_lt digit]
  apply eq_of_bits
  intro i below
  interval_cases i <;> simp

/-- No bits are left over in the last digit. -/
theorem second_alone (digit : e < 64) (none : e &&& 15 = 0) : ((d <<< 2 ||| e >>> 4) &&& 3) <<< 4 = e := by
  have parts : e &&& (63 : UInt8) = ((d <<< 2 ||| e >>> 4) &&& 3) <<< 4 ||| (e &&& 15) := by
    apply eq_of_bits
    intro i below
    interval_cases i <;> simp
  rw [masked_of_lt digit, none] at parts
  simpa using parts.symm

theorem third_alone (digit : f < 64) (none : f &&& 3 = 0) : (((e &&& 15) <<< 4 ||| f >>> 2) &&& 15) <<< 2 = f := by
  have parts : f &&& (63 : UInt8) = (((e &&& 15) <<< 4 ||| f >>> 2) &&& 15) <<< 2 ||| (f &&& 3) := by
    apply eq_of_bits
    intro i below
    interval_cases i <;> simp
  rw [masked_of_lt digit, none] at parts
  simpa using parts.symm

end Bits

section RoundTrip

variable {i : Nat} {D c : UInt8} {s : Bytes}

@[simp] theorem radixDecodeLoop_digit {d : UInt8} (digit : d < 64) (rest : Bytes) :
    radixDecodeLoop i D c s (radixAt d :: rest) =
      match i % 4 with
      | 0 => radixDecodeLoop (i + 1) d (d <<< 2) s rest
      | 1 => radixDecodeLoop (i + 1) d ((d &&& 15) <<< 4) (s ++ [c ||| d >>> 4]) rest
      | 2 => radixDecodeLoop (i + 1) d ((d &&& 3) <<< 6) (s ++ [c ||| d >>> 2]) rest
      | _ => radixDecodeLoop (i + 1) d c (s ++ [c ||| d]) rest := by
  refine (if_neg (radixAt_ne_pad digit)).trans ?_
  rw [radixValue_radixAt digit]

theorem radixDecodeLoop_two {d e : UInt8} (start : i % 4 = 0) (first : d < 64) (second : e < 64) (rest : Bytes) :
    radixDecodeLoop i D c s (radixAt d :: radixAt e :: rest) =
      radixDecodeLoop (i + 2) e ((e &&& 15) <<< 4) (s ++ [d <<< 2 ||| e >>> 4]) rest := by
  have place : (i + 1) % 4 = 1 := by omega
  rw [radixDecodeLoop_digit first, start]
  simp only
  rw [radixDecodeLoop_digit second, place]
  rfl

theorem radixDecodeLoop_three {d e f : UInt8} (start : i % 4 = 0) (first : d < 64) (second : e < 64) (third : f < 64)
    (rest : Bytes) : radixDecodeLoop i D c s (radixAt d :: radixAt e :: radixAt f :: rest) =
      radixDecodeLoop (i + 3) f ((f &&& 3) <<< 6) (s ++ [d <<< 2 ||| e >>> 4, (e &&& 15) <<< 4 ||| f >>> 2]) rest := by
  have place : (i + 2) % 4 = 2 := by omega
  rw [radixDecodeLoop_two start first second, radixDecodeLoop_digit third, place]
  simp only [List.append_assoc, List.cons_append, List.nil_append]

theorem radixDecodeLoop_four {d e f g : UInt8} (start : i % 4 = 0) (first : d < 64) (second : e < 64) (third : f < 64)
    (fourth : g < 64) (rest : Bytes) :
    radixDecodeLoop i D c s (radixAt d :: radixAt e :: radixAt f :: radixAt g :: rest) =
      radixDecodeLoop (i + 4) g ((f &&& 3) <<< 6)
        (s ++ [d <<< 2 ||| e >>> 4, (e &&& 15) <<< 4 ||| f >>> 2, (f &&& 3) <<< 6 ||| g]) rest := by
  have place : (i + 3) % 4 = 3 := by omega
  rw [radixDecodeLoop_three start first second third, radixDecodeLoop_digit fourth, place]
  simp only [List.append_assoc, List.cons_append, List.nil_append]

theorem radixDecodeLoop_pad (rest : Bytes) : radixDecodeLoop i D c s (pad :: rest) = radixFinish i D s (pad :: rest) :=
  if_pos rfl

theorem radixEncodeLoop_end : radixEncodeLoop i c [] = match i % 3 with
    | 1 => [radixAt c, pad, pad]
    | 2 => [radixAt c, pad]
    | _ => [] :=
  rfl

theorem radixEncodeLoop_byte (x : UInt8) (rest : Bytes) : radixEncodeLoop i c (x :: rest) = match i % 3 with
    | 0 => radixAt (x >>> 2) :: radixEncodeLoop (i + 1) ((x &&& 3) <<< 4) rest
    | 1 => radixAt (c ||| x >>> 4) :: radixEncodeLoop (i + 1) ((x &&& 15) <<< 2) rest
    | _ => radixAt (c ||| x >>> 6) :: radixAt (x &&& 63) :: radixEncodeLoop (i + 1) 0 rest :=
  rfl

theorem radixEncodeLoop_three {x y z : UInt8} (start : i % 3 = 0) (rest : Bytes) :
    radixEncodeLoop i c (x :: y :: z :: rest) = radixAt (x >>> 2) :: radixAt ((x &&& 3) <<< 4 ||| y >>> 4) ::
      radixAt ((y &&& 15) <<< 2 ||| z >>> 6) :: radixAt (z &&& 63) :: radixEncodeLoop (i + 3) 0 rest := by
  have second : (i + 1) % 3 = 1 := by omega
  have third : (i + 2) % 3 = 2 := by omega
  rw [radixEncodeLoop_byte, start]
  simp only
  rw [radixEncodeLoop_byte, second]
  simp only
  rw [radixEncodeLoop_byte, third]
  rfl

theorem radixEncodeLoop_one {x : UInt8} (start : i % 3 = 0) :
    radixEncodeLoop i c [x] = [radixAt (x >>> 2), radixAt ((x &&& 3) <<< 4), pad, pad] := by
  have second : (i + 1) % 3 = 1 := by omega
  rw [radixEncodeLoop_byte, start]
  simp only
  rw [radixEncodeLoop_end, second]
  rfl

theorem radixEncodeLoop_two {x y : UInt8} (start : i % 3 = 0) :
    radixEncodeLoop i c [x, y] =
      [radixAt (x >>> 2), radixAt ((x &&& 3) <<< 4 ||| y >>> 4), radixAt ((y &&& 15) <<< 2), pad] := by
  have second : (i + 1) % 3 = 1 := by omega
  have third : (i + 2) % 3 = 2 := by omega
  rw [radixEncodeLoop_byte, start]
  simp only
  rw [radixEncodeLoop_byte, second]
  simp only
  rw [radixEncodeLoop_end, third]
  rfl

/-- What is encoded is decoded, three bytes at a time. -/
theorem radixDecodeLoop_encode : ∀ (b : Bytes) {i j : Nat} (D c e : UInt8) (s : Bytes), i % 4 = 0 → j % 3 = 0 →
    radixDecodeLoop i D c s (radixEncodeLoop j e b) = some (s ++ b)
  | [], i, j, D, c, e, s, start, other => by
    rw [radixEncodeLoop_end, other, List.append_nil]
    show radixFinish i D s [] = some s
    rw [radixFinish, start]
    rfl
  | [x], i, j, D, c, e, s, start, other => by
    have digits := digits_of_bytes (x := x) (y := 0) (z := 0)
    have place : (i + 2) % 4 = 2 := by omega
    have whole : (x >>> 2) <<< 2 ||| ((x &&& 3) <<< 4) >>> 4 = x := by
      simpa using first_of_digits (x := x) (y := 0)
    have none : (x &&& 3) <<< 4 &&& 15 = 0 := by
      apply eq_of_bits
      intro i below
      interval_cases i <;> simp
    rw [radixEncodeLoop_one other, radixDecodeLoop_two start digits.1 digits.2.2.2.2.1, radixDecodeLoop_pad,
      radixFinish, place, whole]
    simp [none]
  | [x, y], i, j, D, c, e, s, start, other => by
    have digits := digits_of_bytes (x := x) (y := y) (z := 0)
    have place : (i + 3) % 4 = 3 := by omega
    have second : (((x &&& 3) <<< 4 ||| y >>> 4) &&& 15) <<< 4 ||| ((y &&& 15) <<< 2) >>> 2 = y := by
      simpa using second_of_digits (x := x) (y := y) (z := 0)
    have none : (y &&& 15) <<< 2 &&& 3 = 0 := by
      apply eq_of_bits
      intro i below
      interval_cases i <;> simp
    rw [radixEncodeLoop_two other, radixDecodeLoop_three start digits.1 digits.2.1 digits.2.2.2.2.2, radixDecodeLoop_pad,
      radixFinish, place, first_of_digits, second]
    simp [none]
  | x :: y :: z :: rest, i, j, D, c, e, s, start, other => by
    have digits := digits_of_bytes (x := x) (y := y) (z := z)
    rw [radixEncodeLoop_three other,
      radixDecodeLoop_four start digits.1 digits.2.1 digits.2.2.1 digits.2.2.2.1,
      radixDecodeLoop_encode rest _ _ _ _ (by omega) (by omega), first_of_digits, second_of_digits, third_of_digits,
      List.append_assoc]
    rfl

/-- The loop ends at a text, or there is a digit in front. -/
theorem radixDecodeLoop_cases {t out : Bytes} (decoded : radixDecodeLoop i D c s t = some out) :
    t.takeWhile (· ≠ pad) = [] ∧ radixFinish i D s t = some out ∨ ∃ d < 64, ∃ rest, t = radixAt d :: rest ∧
      t.takeWhile (· ≠ pad) = radixAt d :: rest.takeWhile (· ≠ pad) := by
  cases t with
  | nil => exact .inl ⟨rfl, decoded⟩
  | cons x rest =>
    by_cases other : x = pad
    · subst other
      rw [radixDecodeLoop_pad] at decoded
      exact .inl ⟨List.takeWhile_cons_of_neg (by simp), decoded⟩
    · replace decoded := (if_neg other).symm.trans decoded
      split at decoded
      · cases decoded
      · rename_i d value
        refine .inr ⟨d, radixValue_lt value, rest, by rw [radixAt_of_value value], ?_⟩
        rw [radixAt_of_value value]
        exact List.takeWhile_cons_of_pos (by simpa using other)

/-- A text that is decoded, and whose last group is short, is what encodes the bytes. -/
theorem radixEncodeLoop_decode (n : Nat) : ∀ {t : Bytes}, t.length ≤ n → ∀ {i j : Nat} {D c e : UInt8} {s out : Bytes},
    i % 4 = 0 → j % 3 = 0 → radixDecodeLoop i D c s t = some out → (t.takeWhile (· ≠ pad)).length % 4 ≠ 0 →
      ∃ b, out = s ++ b ∧ radixEncodeLoop j e b = t := by
  induction n with
  | zero =>
    intro t short i j D c e s out start other decoded partial'
    rw [List.eq_nil_of_length_eq_zero (Nat.le_zero.mp short)] at partial'
    exact absurd rfl partial'
  | succ n ih =>
    intro t short i j D c e s out start other decoded odd
    have second : (i + 1) % 4 = 1 := by omega
    have third : (i + 2) % 4 = 2 := by omega
    have fourth : (i + 3) % 4 = 3 := by omega
    obtain ⟨stops, -⟩ | ⟨d, first, t, rfl, run⟩ := radixDecodeLoop_cases decoded
    · rw [stops] at odd
      exact absurd rfl odd
    rw [run] at odd
    rw [radixDecodeLoop_digit first, start] at decoded
    simp only at decoded
    -- one digit alone is refused
    obtain ⟨-, finished⟩ | ⟨x, firstOf, t, rfl, run⟩ := radixDecodeLoop_cases decoded
    · rw [radixFinish, second] at finished
      cases finished
    rw [run] at odd
    rw [radixDecodeLoop_digit firstOf, second] at decoded
    simp only at decoded
    obtain ⟨-, finished⟩ | ⟨y, secondOf, t, rfl, run⟩ := radixDecodeLoop_cases decoded
    · rw [radixFinish, third] at finished
      simp only [ne_eq, ite_not] at finished
      split at finished
      · split at finished
        · rename_i none pads
          cases finished
          refine ⟨_, rfl, ?_⟩
          rw [radixEncodeLoop_one other, pads, first_of_bytes first, second_alone firstOf none, shifted_out firstOf]
          simp
        · cases finished
      · cases finished
    rw [run] at odd
    rw [radixDecodeLoop_digit secondOf, third] at decoded
    simp only at decoded
    obtain ⟨-, finished⟩ | ⟨z, thirdOf, t, rfl, run⟩ := radixDecodeLoop_cases decoded
    · rw [radixFinish, fourth] at finished
      simp only [ne_eq, ite_not] at finished
      split at finished
      · split at finished
        · rename_i none pads
          cases finished
          refine ⟨_, List.append_assoc _ _ _, ?_⟩
          rw [List.cons_append, List.nil_append, radixEncodeLoop_two other, pads, first_of_bytes first,
            second_of_bytes firstOf, third_alone secondOf none, shifted_out firstOf, shifted_out secondOf]
          simp
        · cases finished
      · cases finished
    -- the group is whole, and the next one follows
    rw [run, List.length_cons, List.length_cons, List.length_cons, List.length_cons, Nat.add_assoc, Nat.add_assoc,
      Nat.add_assoc, Nat.add_mod_right] at odd
    rw [radixDecodeLoop_digit thirdOf, fourth] at decoded
    simp only at decoded
    have shorter : t.length ≤ n := by
      simp only [List.length_cons] at short
      omega
    obtain ⟨b, rfl, back⟩ := ih shorter (by omega) (j := j + 3) (e := 0) (by omega) decoded odd
    refine ⟨(d <<< 2 ||| x >>> 4) :: ((x &&& 15) <<< 4 ||| y >>> 2) :: ((y &&& 3) <<< 6 ||| z) :: b,
      by simp only [List.append_assoc, List.cons_append, List.nil_append], ?_⟩
    rw [radixEncodeLoop_three other, back, first_of_bytes first, second_of_bytes firstOf, third_of_bytes secondOf,
      fourth_of_bytes thirdOf, shifted_out firstOf, shifted_out secondOf, shifted_out thirdOf]
    simp only [UInt8.or_zero]

end RoundTrip

/-- The round trips: what is encoded is decoded, and a text whose last group is short is what encodes the bytes
that it gives. -/
theorem radix_round_trips :
    (∀ b, radixDecode (radixEncode b) = some (b, b.length)) ∧
      ∀ t b len, radixDecode t = some (b, len) → (t.takeWhile (· ≠ pad)).length % 4 ≠ 0 → radixEncode b = t := by
  constructor
  · intro b
    rw [radixDecode, radixEncode, radixDecodeLoop_encode b 0 0 0 [] rfl rfl]
    rfl
  · intro t b len decoded odd
    obtain ⟨out, loop, same⟩ := Option.map_eq_some_iff.mp decoded
    cases same
    obtain ⟨b, rfl, back⟩ := radixEncodeLoop_decode t.length (Nat.le_refl _) (Nat.zero_mod 4) (Nat.zero_mod 3) loop odd
    exact back

end GnomeVfs.Ftp
