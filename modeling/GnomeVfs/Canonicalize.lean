import GnomeVfs.CString

/- `_gnome_vfs_canonicalize_pathname` works in place. The buffer is a byte list and the
loop index a number; the marker is always set before it is read, so it is no loop state. -/
namespace GnomeVfs

theorem lt_length_of_byteAt_ne_zero {s : Bytes} {i : Nat} (present : byteAt s i ≠ 0) :
    i < s.length := by
  by_contra outside
  have absent : s[i]? = none := List.getElem?_eq_none (by omega)
  exact present (by simp [byteAt, List.getD_eq_getElem?_getD, absent])

/-- `find_next_slash`, with `none` for -1, for offsets below 2^31. -/
def findNextSlash (path : Bytes) (currentOffset : Nat) : Option Nat :=
  (path.drop currentOffset).findIdx? (· == chrSlash) |>.map (· + currentOffset)

theorem findNextSlash_bounds {path : Bytes} {i j : Nat} (found : findNextSlash path i = some j) :
    i ≤ j ∧ j < path.length := by
  obtain ⟨k, here, rfl⟩ := Option.map_eq_some_iff.mp found
  have := (List.findIdx?_eq_some_iff_getElem.mp here).1
  simp only [List.length_drop] at this
  omega

/-- The loop of `find_slash_before_offset`. -/
def findSlashBeforeOffsetLoop (path : Bytes) (limit : Nat) : Nat → Nat → Option Nat → Option Nat
  | 0, _, result => result
  | fuel + 1, nextOffset, result =>
    match findNextSlash path nextOffset with
    | none => result
    | some found =>
      if limit ≤ found then result
      else findSlashBeforeOffsetLoop path limit fuel (found + 1) (some found)

def findSlashBeforeOffset (path : Bytes) (limit : Nat) : Option Nat :=
  findSlashBeforeOffsetLoop path limit (path.length + 1) 0 none

theorem findSlashBeforeOffsetLoop_lt (path : Bytes) (limit fuel : Nat) :
    ∀ nextOffset result, (∀ j, result = some j → j < limit) →
      ∀ j, findSlashBeforeOffsetLoop path limit fuel nextOffset result = some j → j < limit := by
  induction fuel with
  | zero => intro nextOffset result below j found; exact below j found
  | succ fuel ih =>
    intro nextOffset result below j found
    unfold findSlashBeforeOffsetLoop at found
    split at found
    · exact below j found
    · split at found
      · exact below j found
      · rename_i inside
        exact ih _ _ (by intro k same; cases same; omega) j found

theorem findSlashBeforeOffset_lt {path : Bytes} {limit j : Nat}
    (found : findSlashBeforeOffset path limit = some j) : j < limit :=
  findSlashBeforeOffsetLoop_lt path limit _ 0 none (by simp) j found

/-- `collapse_slash_runs`. -/
def collapseSlashRuns (path : Bytes) (fromOffset : Nat) : Bytes :=
  path.take fromOffset ++ (path.drop fromOffset).dropWhile (· == chrSlash)

theorem collapseSlashRuns_length (path : Bytes) (i : Nat) :
    (collapseSlashRuns path i).length ≤ path.length := by
  have shorter := (List.dropWhile_suffix (· == chrSlash) (l := path.drop i)).length_le
  simp only [collapseSlashRuns, List.length_append, List.length_take, List.length_drop] at *
  omega

theorem le_collapseSlashRuns_length {path : Bytes} {i : Nat} (inside : i ≤ path.length) :
    i ≤ (collapseSlashRuns path i).length := by
  simp only [collapseSlashRuns, List.length_append, List.length_take]
  omega

/-- What one round of the loop does: leave with a buffer, or go on with it at an index. -/
inductive CanonicalizeStep where
  | done (path : Bytes)
  | next (path : Bytes) (i : Nat)

/-- Advance behind the next slash. -/
def canonicalizeAdvance (path : Bytes) (i : Nat) : CanonicalizeStep :=
  match findNextSlash path i with
  | none => .done path
  | some j => .next (collapseSlashRuns path (j + 1)) (j + 1)

/-- Where the text that `../` removes begins. At the end of the path the slash in front
of it goes as well, unless it is the first character. -/
def parentMarker (path : Bytes) (i : Nat) : Nat :=
  let marker := match findSlashBeforeOffset path (i - 1) with
    | none => 0
    | some j => j + 1
  if byteAt path (i + 2) = 0 ∧ 1 < marker then marker - 1 else marker

def canonicalizeStep (path : Bytes) (i : Nat) : CanonicalizeStep :=
  if byteAt path i = 0 then .done path
  else if byteAt path i = chrDot then
    if byteAt path (i + 1) = 0 then
      if 1 < i ∧ byteAt path (i - 1) = chrSlash then .done (path.take (i - 1))
      else .done (path.take i)
    else if byteAt path (i + 1) = chrSlash then
      let rest := path.take i ++ path.drop (i + 2)
      .next (if i = 0 then collapseSlashRuns rest i else rest) i
    else if byteAt path (i + 1) = chrDot ∧
        (byteAt path (i + 2) = chrSlash ∨ byteAt path (i + 2) = 0) then
      if i ≠ 0 then
        let marker := parentMarker path i
        let stop := if byteAt path (i + 2) = chrSlash then i + 1 else i
        .next (collapseSlashRuns (path.take marker ++ path.drop (stop + 2)) marker) marker
      else
        let start := if byteAt path 2 = chrSlash then 3 else 2
        .next (collapseSlashRuns path start) start
    else canonicalizeAdvance path i
  else canonicalizeAdvance path i

def canonicalizeLoop : Nat → Bytes → Nat → Bytes
  | 0, path, _ => path
  | fuel + 1, path, i =>
    match canonicalizeStep path i with
    | .done rest => rest
    | .next rest j => canonicalizeLoop fuel rest j

/-- `_gnome_vfs_canonicalize_pathname`: the text left in the buffer. -/
def canonicalizePathname (path : Bytes) : Bytes :=
  canonicalizeLoop (2 * path.length + 1) path 0

theorem parentMarker_lt (path : Bytes) {i : Nat} (positive : i ≠ 0) : parentMarker path i < i := by
  unfold parentMarker
  cases found : findSlashBeforeOffset path (i - 1) with
  | none => simp only; split <;> omega
  | some j =>
    have := findSlashBeforeOffset_lt found
    simp only
    split <;> omega

/-- Each round that goes on makes `2 * length - index` smaller and stays in the buffer. -/
structure CanonicalizeProgress (path : Bytes) (i : Nat) (rest : Bytes) (j : Nat) : Prop where
  inside : j ≤ rest.length
  shorter : rest.length ≤ path.length
  decreasing : 2 * rest.length - j < 2 * path.length - i

theorem canonicalizeAdvance_progress {path rest : Bytes} {i j : Nat} (here : i < path.length)
    (next : canonicalizeAdvance path i = .next rest j) : CanonicalizeProgress path i rest j := by
  unfold canonicalizeAdvance at next
  split at next
  · cases next
  · rename_i k found
    cases next
    have bounds := findNextSlash_bounds found
    have upper := collapseSlashRuns_length path (k + 1)
    have lower := @le_collapseSlashRuns_length path (k + 1) (by omega)
    exact ⟨lower, upper, by omega⟩

theorem canonicalizeStep_progress {path rest : Bytes} {i j : Nat}
    (next : canonicalizeStep path i = .next rest j) : CanonicalizeProgress path i rest j := by
  unfold canonicalizeStep at next
  split at next
  · cases next
  rename_i present
  have here := lt_length_of_byteAt_ne_zero present
  split at next
  · split at next
    · split at next <;> cases next
    rename_i second
    have here' := lt_length_of_byteAt_ne_zero second
    split at next
    · -- `./` goes away; the index stays where it is
      cases next
      have size : (path.take i ++ path.drop (i + 2)).length = path.length - 2 := by
        simp only [List.length_append, List.length_take, List.length_drop]
        omega
      split
      · have upper := collapseSlashRuns_length (path.take i ++ path.drop (i + 2)) i
        have lower := @le_collapseSlashRuns_length (path.take i ++ path.drop (i + 2)) i
          (by omega)
        exact ⟨lower, by omega, by omega⟩
      · exact ⟨by omega, by omega, by omega⟩
    · split at next
      · rename_i dots
        split at next
        · rename_i positive
          cases next
          have marker := parentMarker_lt path positive
          have size : (path.take (parentMarker path i) ++
              path.drop ((if byteAt path (i + 2) = chrSlash then i + 1 else i) + 2)).length ≤
              parentMarker path i + (path.length - (i + 2)) := by
            simp only [List.length_append, List.length_take, List.length_drop]
            split <;> omega
          have upper := collapseSlashRuns_length (path.take (parentMarker path i) ++
              path.drop ((if byteAt path (i + 2) = chrSlash then i + 1 else i) + 2))
              (parentMarker path i)
          have lower := @le_collapseSlashRuns_length (path.take (parentMarker path i) ++
              path.drop ((if byteAt path (i + 2) = chrSlash then i + 1 else i) + 2))
              (parentMarker path i) (by
                simp only [List.length_append, List.length_take]
                omega)
          exact ⟨lower, by omega, by omega⟩
        · rename_i zero
          have zero : i = 0 := by simpa using zero
          subst zero
          cases next
          have fits : (if byteAt path 2 = chrSlash then 3 else 2) ≤ path.length := by
            split
            · rename_i same
              have := lt_length_of_byteAt_ne_zero (s := path) (i := 2) (by rw [same]; decide)
              omega
            · omega
          have positive : 0 < (if byteAt path 2 = chrSlash then 3 else 2) := by split <;> omega
          generalize (if byteAt path 2 = chrSlash then 3 else 2) = start at *
          have upper := collapseSlashRuns_length path start
          have lower := le_collapseSlashRuns_length fits
          exact ⟨lower, upper, by omega⟩
      · exact canonicalizeAdvance_progress here next
  · exact canonicalizeAdvance_progress here next

theorem canonicalizeLoop_enough (fuel : Nat) : ∀ (path : Bytes) (i more : Nat),
    2 * path.length - i < fuel →
      canonicalizeLoop (fuel + more) path i = canonicalizeLoop fuel path i := by
  induction fuel with
  | zero => intro path i more enough; omega
  | succ fuel ih =>
    intro path i more enough
    rw [Nat.add_right_comm]
    unfold canonicalizeLoop
    cases step : canonicalizeStep path i with
    | done rest => rfl
    | next rest j =>
      have := (canonicalizeStep_progress step).decreasing
      exact ih rest j more (by omega)

section Sublist

open scoped List

theorem take_append_drop_sublist (path : Bytes) {i j : Nat} (ordered : i ≤ j) :
    path.take i ++ path.drop j <+ path := by
  conv_rhs => rw [← List.take_append_drop i path]
  exact (List.Sublist.refl _).append (List.drop_sublist_drop_left path ordered)

theorem collapseSlashRuns_sublist (path : Bytes) (i : Nat) : collapseSlashRuns path i <+ path := by
  conv_rhs => rw [← List.take_append_drop i path]
  exact (List.Sublist.refl _).append (List.dropWhile_suffix _).sublist

def CanonicalizeStep.path : CanonicalizeStep → Bytes
  | .done rest => rest
  | .next rest _ => rest

theorem canonicalizeAdvance_sublist (path : Bytes) (i : Nat) :
    (canonicalizeAdvance path i).path <+ path := by
  unfold canonicalizeAdvance
  split
  · exact .refl _
  · exact collapseSlashRuns_sublist path _

theorem canonicalizeStep_sublist (path : Bytes) (i : Nat) :
    (canonicalizeStep path i).path <+ path := by
  unfold canonicalizeStep
  split
  · exact .refl _
  split
  · split
    · split <;> exact List.take_sublist _ _
    split
    · have shorter := take_append_drop_sublist path (i := i) (j := i + 2) (by omega)
      simp only [CanonicalizeStep.path]
      split
      · exact (collapseSlashRuns_sublist _ i).trans shorter
      · exact shorter
    split
    · split
      · rename_i positive
        have marker := parentMarker_lt path positive
        refine (collapseSlashRuns_sublist _ _).trans (take_append_drop_sublist path ?_)
        split <;> omega
      · exact collapseSlashRuns_sublist path _
    · exact canonicalizeAdvance_sublist path i
  · exact canonicalizeAdvance_sublist path i

theorem canonicalizeLoop_sublist (fuel : Nat) : ∀ (path : Bytes) (i : Nat),
    canonicalizeLoop fuel path i <+ path := by
  induction fuel with
  | zero => intro path i; exact .refl _
  | succ fuel ih =>
    intro path i
    have step := canonicalizeStep_sublist path i
    unfold canonicalizeLoop
    cases taken : canonicalizeStep path i with
    | done rest => simpa [taken, CanonicalizeStep.path] using step
    | next rest j =>
      rw [taken] at step
      exact (ih rest j).trans step

theorem canonicalizePathname_sublist (path : Bytes) : canonicalizePathname path <+ path :=
  canonicalizeLoop_sublist _ path 0

end Sublist

example : canonicalizePathname (ascii "/a/./b//../c") = ascii "/a/c" := by decide

end GnomeVfs
