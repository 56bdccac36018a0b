import GnomeVfs.EscapeRoundtrip

/- `gnome_vfs_escape_string_internal` goes over the string twice: it counts what has to be escaped, in a
`gint`, and then it writes into the memory it has allocated. -/
namespace GnomeVfs

/-- The counting loop: at which bytes it counts, and the count. -/
def countingLoop : UnsafeCharacterSet → Int → Bytes → List Bool × Int
  | _, unacceptable, [] => ([], unacceptable)
  | useMask, unacceptable, c :: rest =>
    let kept := acceptableChar useMask c
    let unacceptable := if kept then unacceptable else gint (unacceptable + 1)
    let useMask := if useMask = .host && (unacceptable != 0 || c == chrSlash) then .path else useMask
    let next := countingLoop useMask unacceptable rest
    ((!kept) :: next.1, next.2)

/-- At which bytes the writing loop puts an escape. -/
def writingLoop : UnsafeCharacterSet → Bytes → List Bool
  | _, [] => []
  | useMask, c :: rest =>
    let kept := acceptableChar useMask c
    let useMask := if useMask = .host && (!kept || c == chrSlash) then .path else useMask
    (!kept) :: writingLoop useMask rest

/-- The argument of `g_malloc`. -/
def escapeAllocated (mask : UnsafeCharacterSet) (s : Bytes) : Int :=
  s.length + gint ((countingLoop mask 0 s).2 * 2) + 1

/-- How many bytes are written, with the terminator. -/
def escapeWritten (mask : UnsafeCharacterSet) (s : Bytes) : Nat := (escapeStringInternal mask s).length + 1

/-- What is written, and `none` where there is less memory than that. -/
def escapeStringChecked (mask : UnsafeCharacterSet) (s : Bytes) : Option Bytes :=
  if (escapeWritten mask s : Int) ≤ escapeAllocated mask s then some (escapeStringInternal mask s) else none

/-- How many bytes of a string are not acceptable. In a host all is acceptable up to the first byte that is
not, or the first slash, and a path follows. -/
def unacceptableCount (mask : UnsafeCharacterSet) (s : Bytes) : Nat :=
  if mask = .host then
    match s.dropWhile fun c => acceptableChar .host c && c != chrSlash with
    | [] => 0
    | c :: rest => [c].countP (!acceptableChar .host ·) + rest.countP (!acceptableChar .path ·)
  else s.countP (!acceptableChar mask ·)

theorem writingLoop_cons (useMask : UnsafeCharacterSet) (c : UInt8) (rest : Bytes) :
    writingLoop useMask (c :: rest) = (!acceptableChar useMask c) ::
      writingLoop (if useMask = .host && (!acceptableChar useMask c || c == chrSlash) then .path else useMask) rest := rfl

theorem escapeStringInternal_cons (useMask : UnsafeCharacterSet) (c : UInt8) (rest : Bytes) :
    escapeStringInternal useMask (c :: rest) = (if acceptableChar useMask c then [c] else escapeByte c) ++
      escapeStringInternal (if useMask = .host && (!acceptableChar useMask c || c == chrSlash) then .path else useMask) rest :=
  rfl

theorem escapeStringInternal_writingLoop (useMask : UnsafeCharacterSet) (s : Bytes) :
    escapeStringInternal useMask s =
      (s.zip (writingLoop useMask s)).flatMap fun at_ => if at_.2 then escapeByte at_.1 else [at_.1] := by
  induction s generalizing useMask with
  | nil => rfl
  | cons c rest ih =>
    rw [writingLoop_cons, List.zip_cons_cons, List.flatMap_cons, ← ih, escapeStringInternal_cons]
    cases acceptableChar useMask c with
    | true => rfl
    | false => rfl

theorem escapeStringInternal_length (useMask : UnsafeCharacterSet) (s : Bytes) :
    (escapeStringInternal useMask s).length = s.length + 2 * (writingLoop useMask s).count true := by
  induction s generalizing useMask with
  | nil => rfl
  | cons c rest ih =>
    rw [escapeStringInternal_cons, writingLoop_cons, List.length_append, ih]
    cases acceptableChar useMask c with
    | true =>
      simp only [Bool.not_true, if_true, List.length_cons, List.count_cons]
      grind
    | false =>
      simp only [Bool.not_false, Bool.false_eq_true, if_false, List.length_cons, List.count_cons, escapeByte]
      grind

theorem writingLoop_path {useMask : UnsafeCharacterSet} (other : useMask ≠ .host) (s : Bytes) :
    writingLoop useMask s = s.map (!acceptableChar useMask ·) := by
  induction s with
  | nil => rfl
  | cons c rest ih =>
    rw [writingLoop_cons, List.map_cons]
    simp only [other, decide_false, Bool.false_and, Bool.false_eq_true, if_false]
    rw [ih]

/-- With nothing counted before, the loops switch to a path at the same byte. Behind the host what has been
counted before does not matter. -/
theorem countingLoop_eq (s : Bytes) : ∀ (useMask : UnsafeCharacterSet) (before : Nat), (useMask = .host → before = 0) →
    countingLoop useMask (gint before) s =
      (writingLoop useMask s, gint (before + (writingLoop useMask s).count true : Nat)) := by
  induction s with
  | nil =>
    intro useMask before first
    rfl
  | cons c rest ih =>
    intro useMask before first
    unfold countingLoop
    rw [writingLoop_cons]
    dsimp only
    cases kept : acceptableChar useMask c with
    | true =>
      have same : (useMask = .host && (gint before != 0 || c == chrSlash)) =
          (useMask = .host && (false || c == chrSlash)) := by
        by_cases host : useMask = .host
        · rw [first host]
          rfl
        · simp [host]
      simp only [if_true, Bool.not_true]
      rw [same]
      rw [ih _ before]
      · rw [List.count_cons]
        simp
      · intro still
        apply first
        grind
    | false =>
      have counted : gint (gint before + 1) = gint ((before + 1 : Nat) : Int) := gint_succ before
      have same : (useMask = .host && (gint (gint before + 1) != 0 || c == chrSlash)) =
          (useMask = .host && (true || c == chrSlash)) := by
        by_cases host : useMask = .host
        · rw [first host]
          rfl
        · simp [host]
      simp only [Bool.false_eq_true, if_false, Bool.not_false]
      rw [same, counted]
      rw [ih _ (before + 1)]
      · rw [List.count_cons]
        simp only [beq_self_eq_true, if_true, Prod.mk.injEq]
        exact ⟨trivial, congrArg (fun n : Nat => gint n) (by omega)⟩
      · intro still
        grind

theorem writingLoop_count (mask : UnsafeCharacterSet) (s : Bytes) :
    (writingLoop mask s).count true = unacceptableCount mask s := by
  have mapped : ∀ (other : UnsafeCharacterSet) (t : Bytes),
      (t.map (!acceptableChar other ·)).count true = t.countP (!acceptableChar other ·) := by
    intro other t
    rw [List.count, List.countP_map]
    apply List.countP_congr
    intro c _
    simp
  by_cases host : mask = .host
  · rw [host, unacceptableCount, if_pos rfl]
    induction s with
    | nil => rfl
    | cons c rest ih =>
      rw [writingLoop_cons, List.dropWhile_cons]
      by_cases stays : (acceptableChar .host c && c != chrSlash) = true
      · rw [if_pos stays]
        simp only [Bool.and_eq_true, bne_iff_ne] at stays
        simp only [stays.1, Bool.not_true, beq_eq_false_iff_ne.mpr stays.2, Bool.or_false, Bool.and_false,
          Bool.false_eq_true, if_false]
        rw [List.count_cons, ih]
        rfl
      · rw [if_neg stays]
        have leaves : (!acceptableChar .host c || c == chrSlash) = true := by
          simp only [Bool.and_eq_true, bne_iff_ne, not_and_or, ne_eq, not_not] at stays
          rcases stays with escaped | slash
          · simp [escaped]
          · simp [slash]
        rw [leaves]
        simp only [decide_true, Bool.and_self, if_true]
        rw [writingLoop_path (by decide), List.count_cons, mapped, List.countP_singleton]
        cases acceptableChar .host c with
        | true => simp
        | false => simp [Nat.add_comm]
  · rw [writingLoop_path host, unacceptableCount, if_neg host, mapped]

theorem escapeAllocated_eq (mask : UnsafeCharacterSet) (s : Bytes) :
    escapeAllocated mask s = s.length + gint (2 * unacceptableCount mask s : Nat) + 1 := by
  have counted := countingLoop_eq s mask 0 fun _ => rfl
  rw [Int.natCast_zero, gint_eq_self (by decide) (by decide)] at counted
  have doubled : ((0 + unacceptableCount mask s : Nat) : Int) * 2 = (2 * unacceptableCount mask s : Nat) := by omega
  rw [escapeAllocated, counted, writingLoop_count, gint_mul_two, doubled]

theorem escapeAllocated_eq_written (mask : UnsafeCharacterSet) (s : Bytes) :
    escapeAllocated mask s = escapeWritten mask s ↔ unacceptableCount mask s < 2 ^ 30 := by
  have length := escapeStringInternal_length mask s
  rw [writingLoop_count] at length
  have fits := @gint_eq_self_iff (2 * unacceptableCount mask s)
  rw [escapeAllocated_eq, escapeWritten, length]
  constructor
  · intro same
    have : 2 * unacceptableCount mask s < 2 ^ 31 := fits.mp (by omega)
    omega
  · intro small
    have := fits.mpr (by omega)
    omega

theorem escapeStringChecked_eq {mask : UnsafeCharacterSet} {s : Bytes} (few : unacceptableCount mask s < 2 ^ 30) :
    escapeStringChecked mask s = some (escapeStringInternal mask s) :=
  if_pos (Int.le_of_eq ((escapeAllocated_eq_written mask s).mpr few).symm)

theorem escapeStringChecked_eq_none {mask : UnsafeCharacterSet} {s : Bytes} (many : 2 ^ 30 ≤ unacceptableCount mask s) :
    escapeStringChecked mask s = none := by
  apply if_neg
  have length := escapeStringInternal_length mask s
  have below : gint (2 * unacceptableCount mask s : Nat) < (2 ^ 32 + 1) / 2 := Int.bmod_lt (by decide)
  rw [writingLoop_count] at length
  rw [escapeAllocated_eq, escapeWritten, length]
  omega

/-- What is written in less than 2^31 bytes has enough memory. -/
theorem escapeStringChecked_short {mask : UnsafeCharacterSet} {s : Bytes}
    (short : (escapeStringInternal mask s).length < 2 ^ 31) :
    escapeStringChecked mask s = some (escapeStringInternal mask s) := by
  rw [escapeStringInternal_length, writingLoop_count] at short
  exact escapeStringChecked_eq (by omega)

/-- The loops escape the same bytes and what is written is read back; all of it fits when fewer than 2^30
bytes have to be escaped. -/
theorem escapeStringInternal_fits_iff (mask : UnsafeCharacterSet) (s : Bytes) (proper : (0 : UInt8) ∉ s) :
    (unescapeString [] (escapeStringInternal mask s) = some s ∧ (countingLoop mask 0 s).1 = writingLoop mask s ∧
      escapeAllocated mask s = escapeWritten mask s) ↔ unacceptableCount mask s < 2 ^ 30 := by
  have counted := countingLoop_eq s mask 0 fun _ => rfl
  rw [Int.natCast_zero, gint_eq_self (by decide) (by decide)] at counted
  constructor
  · intro right
    exact (escapeAllocated_eq_written mask s).mp right.2.2
  · intro small
    refine ⟨unescapeString_escapeStringInternal mask s proper, ?_, (escapeAllocated_eq_written mask s).mpr small⟩
    rw [counted]

theorem escapeStringInternal_fits_host :
    unescapeString [] (escapeHostAndPathString (ascii "a:1/b%c:d")) = some (ascii "a:1/b%c:d") ∧
      (countingLoop .host 0 (ascii "a:1/b%c:d")).1 = writingLoop .host (ascii "a:1/b%c:d") ∧
      escapeAllocated .host (ascii "a:1/b%c:d") = escapeWritten .host (ascii "a:1/b%c:d") :=
  (escapeStringInternal_fits_iff .host (ascii "a:1/b%c:d") (by decide)).mpr (by decide)

theorem unacceptableCount_replicate {mask : UnsafeCharacterSet} {c : UInt8} (escaped : acceptableChar .path c = false)
    (other : acceptableChar mask c = false) (n : Nat) : unacceptableCount mask (List.replicate n c) = n := by
  rw [unacceptableCount]
  by_cases host : mask = .host
  · rw [host] at other
    cases n with
    | zero => rw [if_pos host]; rfl
    | succ n =>
      rw [if_pos host, List.replicate_succ, List.dropWhile_cons_of_neg (by simp [other])]
      simp [List.countP_replicate, other, escaped, Nat.add_comm]
  · rw [if_neg host]
    simp [List.countP_replicate, other]

/-- A gigabyte of bytes that are escaped: three gigabytes are written, and the argument of `g_malloc` is
negative. -/
theorem escapeAllocated_runs_over :
    escapeAllocated .path (List.replicate (2 ^ 30) 0x80) < 0 ∧
      escapeAllocated .path (List.replicate (2 ^ 30) 0x80) ≠ escapeWritten .path (List.replicate (2 ^ 30) 0x80) := by
  have count : unacceptableCount .path (List.replicate (2 ^ 30) 0x80) = 2 ^ 30 :=
    unacceptableCount_replicate (by decide) (by decide) _
  constructor
  · rw [escapeAllocated_eq, count, List.length_replicate]
    decide
  · intro same
    have fits := (escapeAllocated_eq_written _ _).mp same
    rw [count] at fits
    exact Nat.lt_irrefl _ fits

end GnomeVfs
