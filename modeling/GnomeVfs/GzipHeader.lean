import GnomeVfs.BigEndian
import GnomeVfs.CString
import GnomeVfs.Result

/- The header of a gzip file, read from a parent that gives all bytes asked for as long as it has them. -/
namespace GnomeVfs.Gzip

section Code

variable (atEnd : VfsResult)

/-- `gnome_vfs_read` on the parent: the result, the bytes, and what is left. -/
def parentRead (n : Nat) (input : Bytes) : VfsResult × Bytes × Bytes :=
  if n = 0 then (.ok, [], input)
  else if input = [] then (atEnd, [], [])
  else (.ok, input.take n, input.drop n)

/-- A part of the header and what is left behind it. -/
abbrev Part := Bytes → VfsResult × Bytes

def skipString : Part
  | [] => (if atEnd = .ok then .wrongFormat else atEnd, [])
  | c :: rest => if c = 0 then (.ok, rest) else skipString rest

/-- The `gboolean` of `skip` by its number: `TRUE` is that of `GNOME_VFS_ERROR_NOT_FOUND`. -/
def skip (n : Nat) : Part := fun input =>
  let (result, bytes, rest) := parentRead atEnd n input
  if result ≠ .ok then (result, rest)
  else if bytes.length ≠ n then (.wrongFormat, rest)
  else (.notFound, rest)

/-- `if (! skip (...))` asks for the number zero. -/
def skipExtra : Part := fun input =>
  let (result, tmp, rest) := parentRead atEnd 2 input
  if result ≠ .ok ∨ tmp.length ≠ 2 then (.wrongFormat, rest)
  else
    let (skipped, rest) := skip atEnd ((byteAt tmp 0).toNat ||| (byteAt tmp 0).toNat <<< 8) rest
    if skipped = .ok then (.wrongFormat, rest) else (.ok, rest)

/-- A part that is there where its flag is set. -/
def flagged (set : Bool) (part : Part) : Part := fun input => if set then part input else (.ok, input)

/-- `RETURN_IF_FAIL`. -/
def Part.andThen (first later : Part) : Part := fun input =>
  if (first input).1 ≠ .ok then first input else later (first input).2

def flagHeadCrc : UInt8 := 0x02
def flagExtraField : UInt8 := 0x04
def flagOrigName : UInt8 := 0x08
def flagComment : UInt8 := 0x10
def flagReserved : UInt8 := 0xE0

/-- What the flags announce. -/
def skipFields (flags : UInt8) : Part :=
  (flagged (flags &&& flagExtraField ≠ 0) (skipExtra atEnd)).andThen
    (((flagged (flags &&& flagOrigName ≠ 0) (skipString atEnd)).andThen
      (flagged (flags &&& flagComment ≠ 0) (skipString atEnd))).andThen
        (flagged (flags &&& flagHeadCrc ≠ 0) (skip atEnd 2)))

/-- The `int` that the four bytes are shifted together to. -/
def timeOf (buffer : Bytes) : Int :=
  (BigEndian.decode [byteAt buffer 7, byteAt buffer 6, byteAt buffer 5, byteAt buffer 4] : Int).bmod (2 ^ 32)

/-- The result, the modification time where it is set, and what is left. -/
def readGzipHeader (input : Bytes) : VfsResult × Option Int × Bytes :=
  let (result, buffer, rest) := parentRead atEnd 10 input
  if result ≠ .ok then (result, none, rest)
  else if buffer.length ≠ 10 then (.wrongFormat, none, rest)
  else if byteAt buffer 0 ≠ 0x1f ∨ byteAt buffer 1 ≠ 0x8b then (.wrongFormat, none, rest)
  else if byteAt buffer 2 ≠ 8 then (.wrongFormat, none, rest)
  else if byteAt buffer 3 &&& flagReserved ≠ 0 then (.wrongFormat, none, rest)
  else
    let (result, rest) := skipFields atEnd (byteAt buffer 3) rest
    if result ≠ .ok then (result, none, rest) else (.ok, some (timeOf buffer), rest)

end Code

section Format

/-- A member header. The check sum is any two bytes. -/
structure Header where
  mtime : Nat
  mtime_lt : mtime < 2 ^ 32
  xfl : UInt8
  os : UInt8
  text : Bool
  extra : Option { content : Bytes // content.length < 2 ^ 16 }
  name : Option { s : Bytes // 0 ∉ s }
  comment : Option { s : Bytes // 0 ∉ s }
  crc : Option (UInt8 × UInt8)

namespace Header

variable (h : Header)

def flags : UInt8 :=
  (if h.text then 0x01 else 0) ||| (if h.crc.isSome then flagHeadCrc else 0) |||
    (if h.extra.isSome then flagExtraField else 0) ||| (if h.name.isSome then flagOrigName else 0) |||
    (if h.comment.isSome then flagComment else 0)

def fixed : Bytes := [0x1f, 0x8b, 8, h.flags] ++ (BigEndian.encode 4 h.mtime).reverse ++ [h.xfl, h.os]

def content : Bytes := (h.extra.map Subtype.val).getD []

/-- The length of the extra field. -/
def xlen : Bytes := if h.extra.isSome then (BigEndian.encode 2 h.content.length).reverse else []

def strings : List Bytes := (h.name.map Subtype.val).toList ++ (h.comment.map Subtype.val).toList

/-- What comes behind the length of the extra field, up to the check sum. -/
def fields : Bytes := h.content ++ h.strings.flatMap (· ++ [0])

def checkSum : Bytes := (h.crc.map fun crc => [crc.1, crc.2]).getD []

def encode : Bytes := h.fixed ++ (h.xlen ++ (h.fields ++ h.checkSum))

/-- How many bytes are skipped for the extra field: both bytes of its length are taken to be the low one. -/
def skipped : Nat := if h.extra.isSome then 257 * (h.content.length % 256) else 0

end Header

end Format

section Strings

/-- What is left behind so many strings. -/
def behindStrings : Nat → Bytes → Option Bytes
  | 0, s => some s
  | _ + 1, [] => none
  | k + 1, c :: rest => if c = 0 then behindStrings k rest else behindStrings (k + 1) rest

@[simp] theorem behindStrings_zero (s : Bytes) : behindStrings 0 s = some s := by
  cases s <;> rfl

theorem behindStrings_count {k : Nat} {s rest : Bytes} (found : behindStrings k s = some rest) :
    s.count 0 = k + rest.count 0 := by
  induction s generalizing k with
  | nil =>
    cases k with
    | zero => cases found; simp
    | succ k => cases found
  | cons c s ih =>
    cases k with
    | zero => cases found; simp
    | succ k =>
      rw [behindStrings] at found
      by_cases zero : c = 0
      · rw [if_pos zero] at found
        rw [zero, List.count_cons_self, ih found]
        omega
      · rw [if_neg zero] at found
        rw [List.count_cons_of_ne zero, ih found]

theorem behindStrings_last {k : Nat} {s : Bytes} (count : s.count 0 = k) (rest : Bytes) :
    behindStrings (k + 1) (s ++ 0 :: rest) = some rest := by
  induction s generalizing k with
  | nil =>
    rw [← count]
    simp [behindStrings]
  | cons c s ih =>
    rw [List.cons_append, behindStrings]
    by_cases zero : c = 0
    · rw [zero, List.count_cons_self] at count
      rw [if_pos zero, ← count]
      exact ih rfl
    · rw [List.count_cons_of_ne zero] at count
      rw [if_neg zero]
      exact ih count

theorem behindStrings_none {k : Nat} {s : Bytes} (few : s.count 0 < k) : behindStrings k s = none := by
  cases found : behindStrings k s with
  | none => rfl
  | some rest =>
    have := behindStrings_count found
    omega

variable {atEnd : VfsResult}

theorem skipString_some {s rest : Bytes} (found : behindStrings 1 s = some rest) :
    skipString atEnd s = (.ok, rest) := by
  induction s with
  | nil => cases found
  | cons c s ih =>
    rw [behindStrings] at found
    rw [skipString]
    by_cases zero : c = 0
    · rw [if_pos zero, behindStrings_zero, Option.some.injEq] at found
      rw [if_pos zero, found]
    · rw [if_neg zero] at found ⊢
      exact ih found

theorem skipString_none {s : Bytes} (missing : behindStrings 1 s = none) : (skipString atEnd s).1 ≠ .ok := by
  induction s with
  | nil =>
    rw [skipString]
    split
    next => decide
    next failed => exact failed
  | cons c s ih =>
    rw [behindStrings] at missing
    rw [skipString]
    by_cases zero : c = 0
    · rw [if_pos zero, behindStrings_zero] at missing
      cases missing
    · rw [if_neg zero] at missing ⊢
      exact ih missing

theorem andThen_ok {first later : Part} {s rest : Bytes} (fine : first s = (.ok, rest)) :
    first.andThen later s = later rest := by
  rw [Part.andThen, fine]
  rfl

theorem andThen_failed {first later : Part} {s : Bytes} (failed : (first s).1 ≠ .ok) :
    (first.andThen later s).1 ≠ .ok := by
  rw [Part.andThen, if_pos failed]
  exact failed

theorem behindStrings_succ (k : Nat) (s : Bytes) :
    behindStrings (k + 1) s = (behindStrings 1 s).bind (behindStrings k) := by
  induction s with
  | nil => rfl
  | cons c s ih =>
    rw [behindStrings, behindStrings]
    by_cases zero : c = 0
    · rw [if_pos zero, if_pos zero, behindStrings_zero, Option.bind_some]
    · rw [if_neg zero, if_neg zero, ih]

/-- The two strings that can be there. -/
theorem skipStrings_eq (name comment : Bool) (s : Bytes) :
    (∀ rest, behindStrings (name.toNat + comment.toNat) s = some rest →
      (flagged name (skipString atEnd)).andThen (flagged comment (skipString atEnd)) s = (.ok, rest)) ∧
    (behindStrings (name.toNat + comment.toNat) s = none →
      ((flagged name (skipString atEnd)).andThen (flagged comment (skipString atEnd)) s).1 ≠ .ok) := by
  have last (s : Bytes) : (∀ rest, behindStrings comment.toNat s = some rest →
      flagged comment (skipString atEnd) s = (.ok, rest)) ∧
      (behindStrings comment.toNat s = none → (flagged comment (skipString atEnd) s).1 ≠ .ok) := by
    cases comment with
    | false =>
      rw [Bool.toNat_false, behindStrings_zero]
      exact ⟨fun rest found => (by cases found; rfl), fun missing => (by cases missing)⟩
    | true => exact ⟨fun rest found => skipString_some found, fun missing => skipString_none missing⟩
  cases name with
  | false =>
    have none_first : flagged false (skipString atEnd) s = (.ok, s) := rfl
    rw [andThen_ok none_first, Bool.toNat_false, Nat.zero_add]
    exact last s
  | true =>
    rw [Bool.toNat_true, Nat.add_comm, behindStrings_succ]
    cases first : behindStrings 1 s with
    | none =>
      refine ⟨fun rest found => (by cases found), fun _ => andThen_failed ?_⟩
      exact skipString_none first
    | some behind =>
      have fine : flagged true (skipString atEnd) s = (.ok, behind) := skipString_some first
      rw [andThen_ok fine, Option.bind_some]
      exact last behind

end Strings

section Fields

variable (atEnd : VfsResult)

theorem parentRead_all {front : Bytes} (some_byte : front ≠ []) (rest : Bytes) :
    parentRead atEnd front.length (front ++ rest) = (.ok, front, rest) := by
  have positive : front.length ≠ 0 := fun none => some_byte (List.length_eq_zero_iff.mp none)
  rw [parentRead, if_neg positive, if_neg (by simp [some_byte])]
  simp

theorem parentRead_short {n : Nat} {input : Bytes} (short : input.length < n) :
    (parentRead atEnd n input).1 ≠ .ok ∨ (parentRead atEnd n input).2.1.length ≠ n := by
  rw [parentRead, if_neg (by omega)]
  by_cases none_left : input = []
  · rw [if_pos none_left]
    exact Or.inr (by simp; omega)
  · rw [if_neg none_left]
    exact Or.inr (by simp; omega)

theorem skip_rest (n : Nat) (input : Bytes) : (skip atEnd n input).2 = input.drop n := by
  rw [skip, parentRead]
  by_cases none_asked : n = 0
  · simp [none_asked]
  · rw [if_neg none_asked]
    by_cases none_left : input = []
    · rw [if_pos none_left]
      by_cases fine : atEnd = .ok
      · simp [fine, none_left, Ne.symm none_asked]
      · simp [fine, none_left]
    · rw [if_neg none_left]
      simp only [ne_eq, not_true, if_false]
      split <;> rfl

/-- No answer of `skip` is zero. -/
theorem skip_ne_ok (n : Nat) (input : Bytes) : (skip atEnd n input).1 ≠ .ok := by
  rw [skip]
  simp only
  split
  next failed => exact failed
  next =>
    split
    · exact fun never => by cases never
    · exact fun never => by cases never

theorem skipExtra_eq (lo hi : UInt8) (rest : Bytes) :
    skipExtra atEnd (lo :: hi :: rest) = (.ok, rest.drop (257 * lo.toNat)) := by
  have small : lo.toNat < 2 ^ 8 := lo.toNat_lt
  have both : lo.toNat ||| lo.toNat <<< 8 = 257 * lo.toNat := by
    rw [Nat.shiftLeft_eq, Nat.or_comm, Nat.mul_comm, ← Nat.two_pow_add_eq_or_of_lt small]
    omega
  have two := @parentRead_all atEnd [lo, hi] (by simp) rest
  rw [List.length_cons, List.length_cons, List.length_nil] at two
  have whole : lo :: hi :: rest = [lo, hi] ++ rest := rfl
  rw [skipExtra, whole, two]
  simp only [List.length_cons, List.length_nil, ne_eq, not_true, false_or, if_false, byteAt, List.getD_cons_zero, both,
    skip_ne_ok, skip_rest]

theorem skipExtra_short {input : Bytes} (short : input.length < 2) : (skipExtra atEnd input).1 ≠ .ok := by
  rw [skipExtra]
  simp only
  rw [if_pos (parentRead_short atEnd short)]
  exact fun never => by cases never

namespace Header

variable (h : Header)

theorem flags_eq : (h.flags &&& flagReserved = 0) ∧ decide (h.flags &&& flagExtraField ≠ 0) = h.extra.isSome ∧
    decide (h.flags &&& flagOrigName ≠ 0) = h.name.isSome ∧ decide (h.flags &&& flagComment ≠ 0) = h.comment.isSome ∧
    decide (h.flags &&& flagHeadCrc ≠ 0) = h.crc.isSome := by
  rw [flags]
  generalize h.text = text, h.crc.isSome = crc, h.extra.isSome = extra, h.name.isSome = name, h.comment.isSome = comment
  revert text crc extra name comment
  decide

theorem length_fixed : h.fixed.length = 10 := by simp [fixed]

theorem fixed_ne_nil : h.fixed ≠ [] := fun none => by
  have := h.length_fixed
  rw [none] at this
  cases this

theorem timeOf_fixed : timeOf h.fixed = (h.mtime : Int).bmod (2 ^ 32) := by
  have four : [byteAt h.fixed 7, byteAt h.fixed 6, byteAt h.fixed 5, byteAt h.fixed 4] = BigEndian.encode 4 h.mtime := by
    have bytes (a b c d : UInt8) (shape : BigEndian.encode 4 h.mtime = [a, b, c, d]) :
        h.fixed = [0x1f, 0x8b, 8, h.flags, d, c, b, a, h.xfl, h.os] := by
      rw [fixed, shape]
      rfl
    rw [bytes _ _ _ _ rfl]
    rfl
  have small : h.mtime < 256 ^ 4 := by
    have bound := h.mtime_lt
    omega
  unfold timeOf
  rw [four, BigEndian.decode_encode_of_lt small]

theorem length_strings : h.strings.length = h.name.isSome.toNat + h.comment.isSome.toNat := by
  rw [strings]
  cases h.name <;> cases h.comment <;> rfl

theorem read_fixed (rest : Bytes) :
    readGzipHeader atEnd (h.fixed ++ rest) =
      if (skipFields atEnd h.flags rest).1 ≠ .ok then
        ((skipFields atEnd h.flags rest).1, none, (skipFields atEnd h.flags rest).2)
      else (.ok, some (timeOf h.fixed), (skipFields atEnd h.flags rest).2) := by
  have ten := parentRead_all atEnd h.fixed_ne_nil rest
  rw [length_fixed] at ten
  have magic : byteAt h.fixed 0 = 0x1f ∧ byteAt h.fixed 1 = 0x8b ∧ byteAt h.fixed 2 = 8 ∧ byteAt h.fixed 3 = h.flags :=
    ⟨rfl, rfl, rfl, rfl⟩
  simp only [readGzipHeader, ten, length_fixed, magic, h.flags_eq.1, ne_eq, not_true, or_self, if_false]

/-- What comes of a header is what comes of the fields behind the length of the extra field. -/
theorem read_fields (s : Bytes) :
    (h.crc = none → ∀ rest, behindStrings h.strings.length (s.drop h.skipped) = some rest →
      readGzipHeader atEnd (h.fixed ++ (h.xlen ++ s)) = (.ok, some ((h.mtime : Int).bmod (2 ^ 32)), rest)) ∧
    (behindStrings h.strings.length (s.drop h.skipped) = none →
      (readGzipHeader atEnd (h.fixed ++ (h.xlen ++ s))).1 ≠ .ok) ∧
    (h.crc ≠ none → (readGzipHeader atEnd (h.fixed ++ (h.xlen ++ s))).1 ≠ .ok) := by
  obtain ⟨-, extra, name, comment, crc⟩ := h.flags_eq
  have extraField : flagged (decide (h.flags &&& flagExtraField ≠ 0)) (skipExtra atEnd) (h.xlen ++ s) =
      (.ok, s.drop h.skipped) := by
    rw [extra, xlen, skipped]
    cases some_extra : h.extra.isSome with
    | false => rfl
    | true =>
      have low : (UInt8.ofNat h.content.length).toNat = h.content.length % 256 := UInt8.toNat_ofNat'
      have bytes : (BigEndian.encode 2 h.content.length).reverse ++ s =
          UInt8.ofNat h.content.length :: UInt8.ofNat (h.content.length / 256) :: s := by
        simp [BigEndian.encode]
      rw [if_pos rfl, if_pos rfl, bytes, flagged, if_pos rfl, skipExtra_eq, low]
  have fields : skipFields atEnd h.flags (h.xlen ++ s) =
      ((flagged h.name.isSome (skipString atEnd)).andThen (flagged h.comment.isSome (skipString atEnd))).andThen
        (flagged h.crc.isSome (skip atEnd 2)) (s.drop h.skipped) := by
    rw [skipFields, andThen_ok extraField, name, comment, crc]
  have strings := @skipStrings_eq atEnd h.name.isSome h.comment.isSome (s.drop h.skipped)
  rw [← length_strings] at strings
  rw [read_fixed, fields, timeOf_fixed]
  refine ⟨fun no_crc rest found => ?_, fun missing => ?_, fun some_crc => ?_⟩
  · rw [andThen_ok (strings.1 rest found), no_crc]
    rfl
  · have failed := @andThen_failed _ (flagged h.crc.isSome (skip atEnd 2)) _ (strings.2 missing)
    rw [if_pos failed]
    exact failed
  · have set : h.crc.isSome = true := Option.isSome_iff_ne_none.mpr some_crc
    have failed : (((flagged h.name.isSome (skipString atEnd)).andThen (flagged h.comment.isSome (skipString atEnd))).andThen
        (flagged h.crc.isSome (skip atEnd 2)) (s.drop h.skipped)).1 ≠ .ok := by
      cases found : behindStrings h.strings.length (s.drop h.skipped) with
      | none => exact andThen_failed (strings.2 found)
      | some rest =>
        rw [andThen_ok (strings.1 rest found), set]
        exact skip_ne_ok atEnd 2 rest
    rw [if_pos failed]
    exact failed

/-- The header is read as it is written: whatever comes behind it, and no part of it alone. -/
def Parsed : Prop :=
  (∀ rest, readGzipHeader atEnd (h.encode ++ rest) = (.ok, some (h.mtime : Int), rest)) ∧
    ∀ front, front <+: h.encode → front ≠ h.encode → (readGzipHeader atEnd front).1 ≠ .ok

/-- No check sum, a time that an `int` holds, and so many terminators behind what is skipped for the extra
field as there are strings; without strings, nothing in the extra field. -/
def Plain : Prop :=
  h.crc = none ∧ h.mtime < 2 ^ 31 ∧
    if h.strings = [] then h.content = [] else (h.fields.drop h.skipped).count 0 = h.strings.length

instance decidablePlain : Decidable h.Plain := inferInstanceAs (Decidable (_ ∧ _))

theorem encode_append (rest : Bytes) :
    h.encode ++ rest = h.fixed ++ (h.xlen ++ (h.fields ++ (h.checkSum ++ rest))) := by
  simp only [encode, List.append_assoc]

theorem time_eq : (h.mtime : Int).bmod (2 ^ 32) = h.mtime ↔ h.mtime < 2 ^ 31 := by
  have small := h.mtime_lt
  constructor
  · intro same
    have bound := Int.bmod_lt (x := (h.mtime : Int)) (m := 2 ^ 32) (by decide)
    omega
  · intro low
    exact Int.bmod_eq_of_le (by omega) (by omega)

theorem fields_nil (none_there : h.strings = []) : h.fields = h.content := by
  rw [fields, none_there]
  simp

theorem fields_last (some_string : h.strings ≠ []) : ∃ front, h.fields = front ++ [0] := by
  obtain ⟨front, last, split⟩ := (List.eq_nil_or_concat h.strings).resolve_left some_string
  refine ⟨h.content ++ (front.flatMap (· ++ [0]) ++ last), ?_⟩
  rw [fields, split]
  simp

theorem skipped_nil (empty : h.content = []) : h.skipped = 0 := by
  rw [skipped, empty]
  simp

variable {h}

theorem Parsed.plain (parsed : h.Parsed atEnd) : h.Plain := by
  have no_crc : h.crc = none := by
    by_contra some_crc
    have failed := (h.read_fields atEnd (h.fields ++ (h.checkSum ++ []))).2.2 some_crc
    rw [← encode_append, parsed.1 []] at failed
    exact failed rfl
  have whole : h.encode = h.fixed ++ (h.xlen ++ h.fields) := by
    simp [encode, checkSum, no_crc]
  have alone := parsed.1 []
  rw [List.append_nil, whole] at alone
  cases found : behindStrings h.strings.length (h.fields.drop h.skipped) with
  | none =>
    have failed := (h.read_fields atEnd h.fields).2.1 found
    rw [alone] at failed
    exact absurd rfl failed
  | some rest =>
    rw [(h.read_fields atEnd h.fields).1 no_crc rest found] at alone
    simp only [Prod.mk.injEq, Option.some.injEq, true_and] at alone
    refine ⟨no_crc, h.time_eq.mp alone.1, ?_⟩
    by_cases none_there : h.strings = []
    · -- The part in front of the extra field would be a header of its own.
      rw [if_pos none_there]
      by_contra some_content
      refine parsed.2 (h.fixed ++ (h.xlen ++ [])) ?_ ?_ ?_
      · rw [whole, List.append_nil, ← List.append_assoc]
        exact List.prefix_append _ _
      · rw [whole, h.fields_nil none_there]
        simpa using Ne.symm some_content
      · rw [(h.read_fields atEnd []).1 no_crc [] (by rw [none_there]; simp)]
    · rw [if_neg none_there, behindStrings_count found, alone.2]
      simp

theorem read_few {front : Bytes} (short : front.length < 10) : (readGzipHeader atEnd front).1 ≠ .ok := by
  rw [readGzipHeader]
  simp only
  split
  next failed => exact failed
  next fine =>
    rw [if_pos ((parentRead_short atEnd short).resolve_left (not_not.mpr (not_not.mp fine)))]
    exact fun never => by cases never

theorem read_few_more {behind : Bytes} (inside : behind <+: h.xlen ++ h.fields) (short : ¬ h.xlen <+: behind) :
    (readGzipHeader atEnd (h.fixed ++ behind)).1 ≠ .ok := by
  have some_extra : h.extra.isSome = true := by
    by_contra no_extra
    rw [xlen, if_neg no_extra] at short
    exact short (List.nil_prefix)
  have two : h.xlen.length = 2 := by simp [xlen, some_extra]
  have few : behind.length < 2 := by
    by_contra enough
    exact short (List.prefix_of_prefix_length_le (List.prefix_append _ _) inside (by omega))
  have first : (flagged (decide (h.flags &&& flagExtraField ≠ 0)) (skipExtra atEnd) behind).1 ≠ .ok := by
    rw [h.flags_eq.2.1, some_extra]
    exact skipExtra_short atEnd few
  have failed : (skipFields atEnd h.flags behind).1 ≠ .ok := andThen_failed first
  rw [read_fixed, if_pos failed]
  exact failed

theorem Plain.parsed (plain : h.Plain) : h.Parsed atEnd := by
  obtain ⟨no_crc, low, counted⟩ := plain
  have whole : h.encode = h.fixed ++ (h.xlen ++ h.fields) := by
    simp [encode, checkSum, no_crc]
  -- Behind what is skipped, the strings end where the header does, and not before.
  have ends : (∀ rest, behindStrings h.strings.length ((h.fields ++ rest).drop h.skipped) = some rest) ∧
      ∀ front, front <+: h.fields → front ≠ h.fields → behindStrings h.strings.length (front.drop h.skipped) = none := by
    by_cases none_there : h.strings = []
    · rw [if_pos none_there] at counted
      rw [h.fields_nil none_there, counted, h.skipped_nil counted, none_there]
      refine ⟨fun rest => by simp, fun front inside other => absurd (List.prefix_nil.mp inside) other⟩
    · rw [if_neg none_there] at counted
      obtain ⟨front, last⟩ := h.fields_last none_there
      have positive : 0 < h.strings.length := List.length_pos_iff.mpr none_there
      have within : h.skipped ≤ front.length := by
        by_contra beyond
        rw [last, List.drop_eq_nil_of_le (by simp; omega)] at counted
        simp only [List.count_nil] at counted
        omega
      have split (rest : Bytes) : (front ++ rest).drop h.skipped = front.drop h.skipped ++ rest :=
        List.drop_append_of_le_length within
      rw [last, split, List.count_append, List.count_singleton_self] at counted
      refine ⟨fun rest => ?_, fun part inside other => behindStrings_none ?_⟩
      · rw [last, List.append_assoc, split, ← counted]
        exact behindStrings_last rfl rest
      · rw [last] at inside other
        have shorter : part <+: front := (List.prefix_concat_iff.mp inside).resolve_left other
        obtain ⟨more, rfl⟩ := shorter
        rw [List.drop_append, List.count_append] at counted
        omega
  refine ⟨fun rest => ?_, fun front inside other => ?_⟩
  · rw [whole, List.append_assoc, List.append_assoc, (h.read_fields atEnd _).1 no_crc rest (ends.1 rest),
      h.time_eq.mpr low]
  · rw [whole] at inside other
    by_cases short : front.length < 10
    · exact read_few atEnd short
    · obtain ⟨behind, rfl⟩ : h.fixed <+: front :=
        List.prefix_of_prefix_length_le (List.prefix_append _ _) inside (by rw [length_fixed]; omega)
      rw [List.prefix_append_right_inj] at inside
      rw [ne_eq, List.append_cancel_left_eq] at other
      by_cases length : h.xlen <+: behind
      · obtain ⟨part, rfl⟩ := length
        rw [List.prefix_append_right_inj] at inside
        rw [List.append_cancel_left_eq] at other
        exact (h.read_fields atEnd part).2.1 (ends.2 part inside other)
      · exact read_few_more atEnd inside length

end Header

/-- A header is parsed, followed by whatever there is and in no part of it, exactly where it is a plain one. -/
theorem gzip_header_parsed_iff (h : Header) : h.Parsed atEnd ↔ h.Plain :=
  ⟨Header.Parsed.plain atEnd, Header.Plain.parsed atEnd⟩

/-- An extra field of one byte, and no strings. -/
def oneExtra : Header := ⟨0, by decide, 0, 3, false, some ⟨[7], by decide⟩, none, none, none⟩

/-- The 257 bytes that are skipped for one byte of the extra field take the data with them. -/
theorem extra_field_overrun : ¬ oneExtra.Parsed .eof :=
  fun claimed => absurd (Header.Parsed.plain .eof claimed) (by decide)

end Fields

end GnomeVfs.Gzip
