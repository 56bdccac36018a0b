import GnomeVfs.CanonicalizeNormal
import GnomeVfs.LocalPath
import GnomeVfs.UriReparse

/- `gnome_vfs_make_uri_canonical`: trailing slashes, a scheme where there is none, and then the URI that is
parsed from the text and printed again. -/
namespace GnomeVfs

/-- The flags of the loop in `gnome_vfs_handle_trailing_slashes`. -/
structure SlashFlags where
  previousCharIsColumn : Bool
  previousCharsAreSlashesWithoutColumn : Bool
  previousCharsAreSlashesWithColumn : Bool
  deriving DecidableEq

def SlashFlags.start : SlashFlags := ⟨false, false, false⟩

def SlashFlags.step (f : SlashFlags) (c : UInt8) : SlashFlags :=
  let next :=
    if c = chrSlash ∧ !f.previousCharIsColumn then { f with previousCharsAreSlashesWithoutColumn := true }
    else if c = chrSlash then ⟨true, false, true⟩
    else ⟨false, false, false⟩
  if c = chrColon then { next with previousCharIsColumn := true } else next

def localSchemes : List Bytes :=
  [ascii "file:", ascii "help:", ascii "ghelp:", ascii "gnome-help:", ascii "trash:", ascii "man:", ascii "info:",
    ascii "hardware:", ascii "search:", ascii "pipe:", ascii "gnome-trash:"]

/-- `gnome_vfs_uri_is_local_scheme`. -/
def isLocalScheme (uri : Bytes) : Bool := localSchemes.any fun scheme => istrHasPrefix uri scheme

/-- "go back till you remove them all", over the reversed text. `before` is the byte in front of the buffer; where
it is a slash as well the loop goes on writing outside of the buffer. -/
def removeSlashes (before : UInt8) : Bytes → Option Bytes
  | [] => if before = chrSlash then none else some []
  | c :: rest => if c = chrSlash then removeSlashes before rest else some (c :: rest)

/-- "go back till you remove them all but one", which looks at the byte in front of each. -/
def removeSlashesButOne (before : UInt8) : Bytes → Option Bytes
  | [] => none
  | [c] => if before = chrSlash then none else some [c]
  | c :: d :: rest => if d = chrSlash then removeSlashesButOne before (d :: rest) else some (c :: d :: rest)

/-- "go back till you remove them all but three" behind a colon. -/
def removeSlashesButThree : Bytes → Bytes
  | [] => []
  | c :: rest => if chrColon ∈ rest.take 3 then c :: rest else removeSlashesButThree rest

/-- `gnome_vfs_handle_trailing_slashes`, with `none` where it leaves the buffer. -/
def handleTrailingSlashes (before : UInt8) (uri : Bytes) : Option Bytes :=
  if uri.length ≤ 2 then some uri
  else
    let flags := uri.foldl SlashFlags.step .start
    if flags.previousCharsAreSlashesWithoutColumn then
      (if isLocalScheme uri then removeSlashes before uri.reverse
        else removeSlashesButOne before uri.reverse).map List.reverse
    else if flags.previousCharsAreSlashesWithColumn then some (removeSlashesButThree uri.reverse).reverse
    else some uri

section Canonical

variable {Method : Type}

/-- The scheme in lower case; the text has a colon. -/
def lowerScheme (uri : Bytes) : Bytes := strdown (uri.takeWhile (· ≠ chrColon)) ++ uri.dropWhile (· ≠ chrColon)

/-- "Work around gnome-vfs's desire to convert file:foo into file://foo". -/
def fileSlashes (uri : Bytes) : Bytes :=
  if (ascii "file://").isPrefixOf uri ∧ !(ascii "file:///").isPrefixOf uri then ascii "file:/" ++ uri.drop 5 else uri

/-- `gnome_vfs_make_uri_canonical`. -/
def makeUriCanonical (ctx : UriContext Method) (before : UInt8) (uri : Bytes) : Option Bytes := do
  let canonicalUri ← handleTrailingSlashes before uri
  if chrColon ∉ canonicalUri then
    if canonicalUri.head? ≠ some chrSlash then
      let path ← makePathNameCanonical canonicalUri
      some (fileSlashes (lowerScheme (ascii "file:///" ++ path)))
    else
      let text := lowerScheme (ascii "file:" ++ canonicalUri)
      some (fileSlashes ((makeUriCanonicalOld ctx text).getD text))
  else
    let text := lowerScheme canonicalUri
    some (fileSlashes ((makeUriCanonicalOld ctx text).getD text))

/-- `gnome_vfs_uris_match`, with the bytes in front of the two buffers. -/
def urisMatch (ctx : UriContext Method) (before1 before2 : UInt8) (uri1 uri2 : Bytes) : Option Bool := do
  let canonical1 ← makeUriCanonical ctx before1 uri1
  let canonical2 ← makeUriCanonical ctx before2 uri2
  some (canonical1 == canonical2)

example : makeUriCanonical plainContext 0 (ascii "/a/b/../c") = some (ascii "file:///a/c") ∧
    makeUriCanonical plainContext 0 (ascii "FILE:/a///") = some (ascii "file:///a") := by
  decide +kernel

end Canonical

section Trailing

variable {before : UInt8} {core : Bytes} {c : UInt8}

/-- A text is what stands in front of its trailing slashes, and these. -/
theorem exists_core (p : Bytes) : ∃ core n, p = core ++ List.replicate n chrSlash ∧ core.getLast? ≠ some chrSlash := by
  induction p using List.reverseRecOn with
  | nil => exact ⟨[], 0, rfl, by simp⟩
  | append_singleton front c ih =>
    obtain ⟨core, n, rfl, last⟩ := ih
    by_cases slash : c = chrSlash
    · refine ⟨core, n + 1, ?_, last⟩
      rw [slash, List.replicate_succ', List.append_assoc]
    · refine ⟨core ++ List.replicate n chrSlash ++ [c], 0, by simp, ?_⟩
      rw [List.getLast?_concat]
      exact fun same => slash (Option.some.inj same)

theorem step_other {f : SlashFlags} (other : c ≠ chrSlash) : f.step c = ⟨c = chrColon, false, false⟩ := by
  by_cases colon : c = chrColon
  · simp [SlashFlags.step, colon]
  · simp [SlashFlags.step, other, colon]

theorem step_slash_column : SlashFlags.step ⟨true, false, false⟩ chrSlash = ⟨true, false, true⟩ ∧
    SlashFlags.step ⟨true, false, true⟩ chrSlash = ⟨true, false, true⟩ := by decide

theorem step_slash : SlashFlags.step ⟨false, false, false⟩ chrSlash = ⟨false, true, false⟩ ∧
    SlashFlags.step ⟨false, true, false⟩ chrSlash = ⟨false, true, false⟩ := by decide

theorem foldl_slashes {f g : SlashFlags} (first : f.step chrSlash = g) (next : g.step chrSlash = g) (n : Nat) :
    (List.replicate (n + 1) chrSlash).foldl SlashFlags.step f = g := by
  induction n with
  | zero => exact first
  | succ n ih => rw [List.replicate_succ', List.foldl_append, ih, List.foldl_cons, List.foldl_nil, next]

theorem flags_slashes (front : Bytes) (other : c ≠ chrSlash) (n : Nat) :
    (front ++ c :: List.replicate (n + 1) chrSlash).foldl SlashFlags.step .start =
      ⟨c = chrColon, c ≠ chrColon, c = chrColon⟩ := by
  rw [List.foldl_append, List.foldl_cons, step_other other]
  by_cases colon : c = chrColon
  · rw [decide_eq_true colon, foldl_slashes step_slash_column.1 step_slash_column.2]
    simp [colon]
  · rw [decide_eq_false colon, foldl_slashes step_slash.1 step_slash.2]
    simp [colon]

theorem flags_all_slashes (n : Nat) :
    (List.replicate (n + 1) chrSlash).foldl SlashFlags.step .start = ⟨false, true, false⟩ :=
  foldl_slashes step_slash.1 step_slash.2 n

theorem removeSlashes_slashes (other : c ≠ chrSlash) (rest : Bytes) (n : Nat) :
    removeSlashes before (List.replicate n chrSlash ++ c :: rest) = some (c :: rest) := by
  induction n with
  | zero => exact if_neg other
  | succ n ih => rw [List.replicate_succ, List.cons_append, removeSlashes, if_pos rfl, ih]

theorem removeSlashesButOne_slashes (other : c ≠ chrSlash) (rest : Bytes) (n : Nat) :
    removeSlashesButOne before (List.replicate (n + 1) chrSlash ++ c :: rest) = some (chrSlash :: c :: rest) := by
  induction n with
  | zero => exact if_neg other
  | succ n ih =>
    rw [List.replicate_succ, List.cons_append, List.replicate_succ, List.cons_append, removeSlashesButOne, if_pos rfl,
      ← List.cons_append, ← List.replicate_succ, ih]

theorem removeSlashesButOne_all (n : Nat) :
    removeSlashesButOne before (List.replicate (n + 1) chrSlash) = if before = chrSlash then none else some [chrSlash] := by
  induction n with
  | zero => rfl
  | succ n ih => rw [List.replicate_succ, List.replicate_succ, removeSlashesButOne, if_pos rfl, ← List.replicate_succ, ih]

theorem removeSlashesButThree_slashes (rest : Bytes) (n : Nat) :
    removeSlashesButThree (List.replicate (n + 1) chrSlash ++ chrColon :: rest) =
      List.replicate (min (n + 1) 3) chrSlash ++ chrColon :: rest := by
  match n with
  | 0 => rfl
  | 1 => rfl
  | 2 => rfl
  | n + 3 =>
    have far : chrColon ∉ (List.replicate (n + 3) chrSlash ++ chrColon :: rest).take 3 := by
      rw [List.take_append_of_le_length (by simp)]
      intro member
      exact absurd (List.eq_of_mem_replicate (List.mem_of_mem_take member)) (by decide)
    have ih := removeSlashesButThree_slashes rest (n + 2)
    rw [List.replicate_succ, List.cons_append, removeSlashesButThree, if_neg far, ih,
      Nat.min_eq_right (by omega), Nat.min_eq_right (by omega)]

end Trailing

end GnomeVfs
