import GnomeVfs.EscapeCount

/- Local paths as `file:` URIs, and back. -/
namespace GnomeVfs

/-- `_gnome_vfs_istr_has_prefix`. -/
def istrHasPrefix : Bytes → Bytes → Bool
  | _, [] => true
  | [], _ :: _ => false
  | h :: haystack, n :: needle => if toLower h = toLower n then istrHasPrefix haystack needle else false

/-- `gnome_vfs_get_local_path_from_uri`. -/
def getLocalPathFromUri (uri : Bytes) : Option Bytes :=
  if !istrHasPrefix uri (ascii "file:/") then none
  else
    let pathPart := uri.drop (ascii "file:").length
    if (strchr pathPart chrHash).isSome then none
    else if istrHasPrefix pathPart (ascii "///") then unescapeString (ascii "/") (pathPart.drop 2)
    else if istrHasPrefix pathPart (ascii "//") then none
    else unescapeString (ascii "/") pathPart

/-- `gnome_vfs_get_uri_from_local_path`: `none` for a path that is not absolute. -/
def getUriFromLocalPath (localFullPath : Bytes) : Option Bytes :=
  if localFullPath.head? = some chrSlash then some (ascii "file://" ++ escapePathString localFullPath) else none

/-- The same with the memory for what is escaped. -/
def getUriFromLocalPathChecked (localFullPath : Bytes) : Option Bytes :=
  if localFullPath.head? = some chrSlash then
    (escapeStringChecked .path localFullPath).map fun escaped => ascii "file://" ++ escaped
  else none

theorem istrHasPrefix_append (s t : Bytes) : istrHasPrefix (s ++ t) s = true := by
  induction s with
  | nil =>
    cases t with
    | nil => rfl
    | cons => rfl
  | cons c rest ih =>
    rw [List.cons_append, istrHasPrefix, if_pos rfl]
    exact ih

theorem escapePathString_cons (c : UInt8) (rest : Bytes) :
    escapePathString (c :: rest) = (if acceptableChar .path c then [c] else escapeByte c) ++ escapePathString rest := rfl

/-- What a path is escaped to has no `#`. -/
theorem hash_not_mem_escapePathString (s : Bytes) : chrHash ∉ escapePathString s := by
  induction s with
  | nil => exact List.not_mem_nil
  | cons c rest ih =>
    rw [escapePathString_cons, List.mem_append]
    rintro (here | later)
    · split at here
      · rename_i kept
        rw [← List.mem_singleton.mp here] at kept
        exact absurd kept (by decide)
      · have escaped := escapeByte_escaped c chrHash here
        exact absurd escaped (by decide)
    · exact ih later

theorem unescapeString_escapePathString {s : Bytes} (proper : (0 : UInt8) ∉ s) :
    unescapeString (ascii "/") (escapePathString s) = some s := by
  induction s with
  | nil => rfl
  | cons c rest ih =>
    have nonzero : c ≠ 0 := fun zero => proper (by simp [zero])
    have tail := ih fun member => proper (List.mem_cons_of_mem _ member)
    rw [escapePathString_cons]
    by_cases kept : acceptableChar .path c = true
    · have plain : c ≠ chrPercent := by
        rintro rfl
        rw [acceptableChar_percent] at kept
        cases kept
      rw [if_pos kept, List.singleton_append, unescapeString_cons_of_ne _ plain, tail]
      rfl
    · have legal : c ∉ ascii "/" := by
        intro slash
        have same : c = chrSlash := List.mem_singleton.mp slash
        rw [same] at kept
        exact kept (by decide)
      rw [if_neg kept, unescapeString_escapeByte _ nonzero legal, tail]
      rfl

/-- An absolute path is read back from the URI that is made of it. -/
theorem getLocalPathFromUri_getUriFromLocalPath (p : Bytes) (proper : (0 : UInt8) ∉ p) (absolute : p.head? = some chrSlash) :
    (getUriFromLocalPath p).bind getLocalPathFromUri = some p := by
  obtain ⟨rest, rfl⟩ : ∃ rest, p = chrSlash :: rest := by
    cases p with
    | nil => cases absolute
    | cons c rest =>
      cases absolute
      exact ⟨rest, rfl⟩
  have first : escapePathString (chrSlash :: rest) = chrSlash :: escapePathString rest := rfl
  rw [getUriFromLocalPath, if_pos absolute, Option.bind_some, getLocalPathFromUri]
  have scheme : istrHasPrefix (ascii "file://" ++ escapePathString (chrSlash :: rest)) (ascii "file:/") = true :=
    istrHasPrefix_append (ascii "file:/") (chrSlash :: escapePathString (chrSlash :: rest))
  have behind : (ascii "file://" ++ escapePathString (chrSlash :: rest)).drop (ascii "file:").length =
      ascii "//" ++ escapePathString (chrSlash :: rest) := rfl
  have bare : strchr (ascii "//" ++ escapePathString (chrSlash :: rest)) chrHash = none := by
    rw [strchr, scanTo_eq_none]
    intro c member
    rw [beq_eq_false_iff_ne]
    rintro rfl
    rcases List.mem_append.mp member with slashes | inside
    · exact absurd slashes (by decide)
    · exact hash_not_mem_escapePathString _ inside
  have three : istrHasPrefix (ascii "//" ++ escapePathString (chrSlash :: rest)) (ascii "///") = true := by
    rw [first]
    exact istrHasPrefix_append (ascii "///") (escapePathString rest)
  rw [scheme, behind]
  dsimp only
  rw [bare, three]
  exact unescapeString_escapePathString proper

/-- With the memory that this takes, it is read back just when fewer than 2^30 bytes have to be escaped. -/
theorem getLocalPathFromUri_getUriFromLocalPath_iff (p : Bytes) (proper : (0 : UInt8) ∉ p)
    (absolute : p.head? = some chrSlash) :
    (getUriFromLocalPathChecked p).bind getLocalPathFromUri = some p ↔ unacceptableCount .path p < 2 ^ 30 := by
  rw [getUriFromLocalPathChecked, if_pos absolute]
  constructor
  · intro back
    by_contra many
    rw [escapeStringChecked_eq_none (Nat.le_of_not_lt many)] at back
    cases back
  · intro few
    have back := getLocalPathFromUri_getUriFromLocalPath p proper absolute
    rw [getUriFromLocalPath, if_pos absolute] at back
    rwa [escapeStringChecked_eq few]

theorem getLocalPathFromUri_getUriFromLocalPath_slashes :
    (getUriFromLocalPathChecked (ascii "//a#%2f b/")).bind getLocalPathFromUri = some (ascii "//a#%2f b/") :=
  (getLocalPathFromUri_getUriFromLocalPath_iff (ascii "//a#%2f b/") (by decide) (by decide)).mpr (by decide)

/-- There is no memory for the URI of a gigabyte of bytes that are escaped. -/
theorem getUriFromLocalPathChecked_runs_over : (0 : UInt8) ∉ chrSlash :: List.replicate (2 ^ 30) (0x80 : UInt8) ∧
    (getUriFromLocalPathChecked (chrSlash :: List.replicate (2 ^ 30) 0x80)).bind getLocalPathFromUri = none := by
  constructor
  · rw [List.mem_cons, List.mem_replicate]
    rintro (never | ⟨-, never⟩) <;> cases never
  · have slash : acceptableChar .path chrSlash = true := by decide
    have count : unacceptableCount .path (chrSlash :: List.replicate (2 ^ 30) 0x80) = 2 ^ 30 := by
      have behind : unacceptableCount .path (List.replicate (2 ^ 30) 0x80) = 2 ^ 30 :=
        unacceptableCount_replicate (by decide) (by decide) _
      rw [unacceptableCount, if_neg (by decide)] at behind ⊢
      rw [List.countP_cons_of_neg (by rw [slash]; decide), behind]
    rw [getUriFromLocalPathChecked, if_pos List.head?_cons, escapeStringChecked_eq_none (Nat.le_of_eq count.symm)]
    rfl

end GnomeVfs
