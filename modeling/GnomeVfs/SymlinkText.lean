import Mathlib.Data.List.DropRight
import GnomeVfs.CanonicalizeFixed

/- The text that a relative symbolic link leads to. -/
namespace GnomeVfs

def isSlash (c : UInt8) : Bool := c = chrSlash

/-- An element of a file name without the slashes around it. -/
def strip (element : Bytes) : Bytes := (element.dropWhile isSlash).rdropWhile isSlash

/-- `g_build_filename` of two elements. The slashes in front of the first one and behind the second
one stay, and empty elements are left out. -/
def buildFilename (first second : Bytes) : Bytes :=
  if first = [] then second
  else if second = [] then first
  else first.takeWhile isSlash ++ [chrSlash].intercalate ([strip first, strip second].filter (· ≠ [])) ++
    second.rtakeWhile isSlash

/-- `g_strsplit` at every slash. -/
def strsplit (filename : Bytes) : List Bytes := if filename = [] then [] else segments filename

/-- `for (j = i; strs[j] == NULL && j > 0; j--)`. -/
def lastString (strs : List (Option Bytes)) : Nat → Nat
  | 0 => 0
  | j + 1 => if strs[j + 1]?.join = none then lastString strs j else j + 1

/-- One round of the loop over the strings, of which `none` is `NULL`. -/
def resolveRound (strs : List (Option Bytes)) (i : Nat) : List (Option Bytes) :=
  match strs[i]?.join with
  | none => strs
  | some s =>
    if s = [] ∨ s = [chrDot] then strs.set i none
    else if s = [chrDot, chrDot] then
      let strs := strs.set i none
      strs.set (lastString strs i) none
    else strs

/-- What is left of the strings, each behind a slash. -/
def joinStrings (strs : List (Option Bytes)) : Bytes :=
  let resPath := (strs.filterMap id).flatMap (chrSlash :: ·)
  if resPath = [] then [chrSlash] else resPath

/-- `gnome_vfs_resolve_symlink`, for texts whose parts an `int` counts. -/
def resolveSymlink (path symlink : Bytes) : Bytes :=
  match cutLast path chrSlash with
  | none => symlink
  | some p =>
    if symlink.head? = some chrSlash then symlink
    else
      let strs := (strsplit (buildFilename p symlink)).map some
      joinStrings ((List.range strs.length).foldl resolveRound strs)

section Stack

/-- The stack, its top first, that a part leads to. -/
def stackPart (stack : List Bytes) (part : Bytes) : List Bytes :=
  if part = [] ∨ part = [chrDot] then stack
  else if part = [chrDot, chrDot] then stack.tail
  else part :: stack

/-- The stack normal form of the parts of a path, from the root. -/
def stackParts (parts : List Bytes) : List Bytes := (parts.foldl stackPart []).reverse

/-- The path of these parts. -/
def rootedPath (parts : List Bytes) : Bytes := if parts = [] then [chrSlash] else parts.flatMap (chrSlash :: ·)

/-- The directory that a path names an entry of. -/
def dirname (path : Bytes) : Bytes := (cutLast path chrSlash).getD []

variable {front : List (Option Bytes)} {stack : List Bytes}

theorem lastString_holes {strs : List (Option Bytes)} :
    ∀ {i : Nat}, (∀ j ≤ i, strs[j]?.join = none) → lastString strs i = 0
  | 0, _ => rfl
  | i + 1, holes => by
    rw [lastString, if_pos (holes (i + 1) (Nat.le_refl _))]
    exact lastString_holes fun j below => holes j (by omega)

theorem lastString_eq {strs : List (Option Bytes)} {k : Nat} (here : strs[k]?.join ≠ none) : ∀ {i : Nat}, k ≤ i →
    (∀ j, k < j → j ≤ i → strs[j]?.join = none) → lastString strs i = k
  | 0, below, _ => by
    rw [Nat.le_zero.mp below]
    rfl
  | i + 1, below, holes => by
    rw [lastString]
    by_cases same : k = i + 1
    · rw [← same, if_neg here]
    · rw [if_pos (holes (i + 1) (by omega) (Nat.le_refl _))]
      exact lastString_eq here (by omega) fun j above inside => holes j above (by omega)

/-- Between the strings of the stack there are holes. A `..` makes one more, and takes the last string
in front of it away. -/
theorem pop_strings (front rest : List (Option Bytes)) (stack : List Bytes) (strings : front.filterMap id = stack.reverse) :
    ∃ front', front'.length = front.length + 1 ∧ front'.filterMap id = stack.tail.reverse ∧
      (front ++ none :: rest).set (lastString (front ++ none :: rest) front.length) none = front' ++ rest := by
  cases stack with
  | nil =>
    have holes : ∀ o ∈ front, o = none := List.filterMap_eq_nil_iff.mp strings
    have first : lastString (front ++ none :: rest) front.length = 0 := by
      apply lastString_holes
      intro j below
      rcases Nat.lt_or_eq_of_le below with inside | same
      · rw [List.getElem?_append_left inside, List.getElem?_eq_getElem inside, holes _ (List.getElem_mem inside)]
        rfl
      · rw [same, List.getElem?_append_right (Nat.le_refl _), Nat.sub_self]
        rfl
    refine ⟨front ++ [none], by simp, ?_, ?_⟩
    · rw [List.filterMap_append, strings]
      rfl
    · rw [first, List.append_assoc]
      cases front with
      | nil => rfl
      | cons o front =>
        rw [holes o List.mem_cons_self]
        rfl
  | cons top below =>
    rw [List.reverse_cons] at strings
    obtain ⟨low, high, rfl, lower, upper⟩ := List.filterMap_eq_append_iff.mp strings
    obtain ⟨holes, o, more, rfl, none₁, same, quiet⟩ := List.filterMap_eq_cons_iff.mp upper
    have same : o = some top := same
    have none₂ : ∀ o ∈ more, o = none := List.filterMap_eq_nil_iff.mp quiet
    rw [same]
    have split : low ++ (holes ++ some top :: more) ++ none :: rest = low ++ holes ++ some top :: (more ++ none :: rest) := by
      simp
    have size : (low ++ (holes ++ some top :: more)).length = (low ++ holes).length + (more.length + 1) := by
      simp only [List.length_append, List.length_cons]
      omega
    have place : lastString (low ++ holes ++ some top :: (more ++ none :: rest))
        ((low ++ holes).length + (more.length + 1)) = (low ++ holes).length := by
      apply lastString_eq
      · rw [List.getElem?_append_right (Nat.le_refl _), Nat.sub_self]
        exact Option.some_ne_none top
      · omega
      · intro j above inside
        obtain ⟨k, rfl⟩ := Nat.exists_eq_add_of_lt above
        rw [List.getElem?_append_right (by omega), show (low ++ holes).length + k + 1 - (low ++ holes).length = k + 1 by omega,
          List.getElem?_cons_succ]
        rcases Nat.lt_or_eq_of_le (show k ≤ more.length by omega) with before | last
        · rw [List.getElem?_append_left before, List.getElem?_eq_getElem before, none₂ _ (List.getElem_mem before)]
          rfl
        · rw [last, List.getElem?_append_right (Nat.le_refl _), Nat.sub_self]
          rfl
    have empty : holes.filterMap id = [] := List.filterMap_eq_nil_iff.mpr none₁
    refine ⟨low ++ holes ++ none :: (more ++ [none]), ?_, ?_, ?_⟩
    · simp only [List.length_append, List.length_cons, List.length_nil]
      omega
    · rw [List.filterMap_append, List.filterMap_append, lower, empty, List.filterMap_cons_none rfl,
        List.filterMap_append, quiet]
      simp
    · rw [split, size, place, List.set_append_right _ _ (Nat.le_refl _), Nat.sub_self, List.set_cons_zero]
      simp

theorem resolveRound_append (front : List (Option Bytes)) (part : Bytes) (rest : List (Option Bytes)) (stack : List Bytes)
    (strings : front.filterMap id = stack.reverse) : ∃ front', front'.length = front.length + 1 ∧
      front'.filterMap id = (stackPart stack part).reverse ∧
      resolveRound (front ++ some part :: rest) front.length = front' ++ rest := by
  have here : (front ++ some part :: rest)[front.length]?.join = some part := by
    rw [List.getElem?_append_right (Nat.le_refl _), Nat.sub_self]
    rfl
  have cleared : (front ++ some part :: rest).set front.length none = front ++ none :: rest := by
    rw [List.set_append_right _ _ (Nat.le_refl _), Nat.sub_self, List.set_cons_zero]
  rw [resolveRound, here, stackPart]
  dsimp only
  split
  · refine ⟨front ++ [none], by simp, ?_, by rw [cleared, List.append_assoc]; rfl⟩
    rw [List.filterMap_append, strings]
    exact List.append_nil _
  · split
    · rw [cleared]
      exact pop_strings front rest stack strings
    · refine ⟨front ++ [some part], by simp, ?_, by rw [List.append_assoc]; rfl⟩
      rw [List.filterMap_append, strings, List.reverse_cons]
      rfl

theorem resolveRounds (parts : List Bytes) : ∀ (front : List (Option Bytes)) (stack : List Bytes),
    front.filterMap id = stack.reverse →
      ((List.range' front.length parts.length).foldl resolveRound (front ++ parts.map some)).filterMap id =
        (parts.foldl stackPart stack).reverse := by
  induction parts with
  | nil =>
    intro front stack strings
    rw [List.map_nil, List.append_nil]
    exact strings
  | cons part parts ih =>
    intro front stack strings
    obtain ⟨front', longer, strings', round⟩ := resolveRound_append front part (parts.map some) stack strings
    rw [List.length_cons, List.range'_succ, List.foldl_cons, List.map_cons, round, ← longer]
    exact ih front' _ strings'

theorem joinStrings_eq {strs : List (Option Bytes)} : joinStrings strs = rootedPath (strs.filterMap id) := by
  rw [joinStrings, rootedPath]
  cases strs.filterMap id with
  | nil => rfl
  | cons part parts => rfl

end Stack

section Parts

variable {stack : List Bytes}

/-- The parts of a path that are not empty. -/
def solidParts (path : Bytes) : List Bytes := (segments path).filter (· ≠ [])

theorem foldl_solid (parts : List Bytes) : ∀ stack : List Bytes,
    (parts.filter (· ≠ [])).foldl stackPart stack = parts.foldl stackPart stack := by
  induction parts with
  | nil => exact fun _ => rfl
  | cons part parts ih =>
    intro stack
    by_cases empty : part = []
    · rw [List.filter_cons_of_neg (by simp [empty]), List.foldl_cons, ih, stackPart, if_pos (Or.inl empty)]
    · rw [List.filter_cons_of_pos (by simp [empty]), List.foldl_cons, List.foldl_cons, ih]

theorem solidParts_slash (front back : Bytes) :
    solidParts (front ++ chrSlash :: back) = solidParts front ++ solidParts back := by
  rw [solidParts, segments, List.splitOn_append_cons_self, List.filter_append]
  rfl

theorem solidParts_front {run : Bytes} (slashes : ∀ c ∈ run, isSlash c = true) (path : Bytes) :
    solidParts (run ++ path) = solidParts path := by
  induction run with
  | nil => rfl
  | cons c run ih =>
    rw [List.forall_mem_cons] at slashes
    have slash : c = chrSlash := of_decide_eq_true slashes.1
    have first := solidParts_slash [] (run ++ path)
    rw [slash, List.cons_append]
    exact first.trans (ih slashes.2)

theorem solidParts_back {run : Bytes} (slashes : ∀ c ∈ run, isSlash c = true) (path : Bytes) :
    solidParts (path ++ run) = solidParts path := by
  cases run with
  | nil => rw [List.append_nil]
  | cons c run =>
    rw [List.forall_mem_cons] at slashes
    have slash : c = chrSlash := of_decide_eq_true slashes.1
    have none := solidParts_front slashes.2 []
    rw [List.append_nil] at none
    rw [slash, solidParts_slash, none]
    exact List.append_nil _

theorem solidParts_strip (path : Bytes) : solidParts (strip path) = solidParts path := by
  have front := List.takeWhile_append_dropWhile (p := isSlash) (l := path)
  have back := List.rdropWhile_append_rtakeWhile (p := isSlash) (l := path.dropWhile isSlash)
  calc solidParts (strip path) = solidParts (strip path ++ (path.dropWhile isSlash).rtakeWhile isSlash) :=
        (solidParts_back (fun c => List.mem_rtakeWhile_imp) _).symm
    _ = solidParts (path.dropWhile isSlash) := by rw [strip, back]
    _ = solidParts (path.takeWhile isSlash ++ path.dropWhile isSlash) :=
        (solidParts_front (fun c => List.mem_takeWhile_imp) _).symm
    _ = solidParts path := by rw [front]

theorem solidParts_buildFilename (first second : Bytes) :
    solidParts (buildFilename first second) = solidParts first ++ solidParts second := by
  have none : solidParts [] = [] := rfl
  rw [buildFilename]
  by_cases noFirst : first = []
  · rw [if_pos noFirst, noFirst, none]
    rfl
  · rw [if_neg noFirst]
    by_cases noSecond : second = []
    · rw [if_pos noSecond, noSecond, none, List.append_nil]
    · rw [if_neg noSecond, solidParts_back (fun c => List.mem_rtakeWhile_imp),
        solidParts_front (fun c => List.mem_takeWhile_imp), ← solidParts_strip first, ← solidParts_strip second]
      cases strip first with
      | nil =>
        cases strip second with
        | nil => rfl
        | cons d back => simp [none]
      | cons c front =>
        cases strip second with
        | nil => simp [none]
        | cons d back => 
          have joined : [chrSlash].intercalate ([c :: front, d :: back].filter (· ≠ [])) = (c :: front) ++ chrSlash :: (d :: back) := by
            simp [List.intercalate]
          rw [joined, solidParts_slash]

end Parts

/-- A relative link leads to the stack normal form of the directory that it is in and its text. -/
theorem resolveSymlink_eq {path symlink : Bytes} (absolute : path.head? = some chrSlash)
    (relative : symlink.head? ≠ some chrSlash) : resolveSymlink path symlink =
      rootedPath (stackParts (segments (dirname path) ++ segments symlink)) := by
  cases cut : cutLast path chrSlash with
  | none =>
    obtain ⟨rest, rfl⟩ : ∃ rest, path = chrSlash :: rest := by
      cases path with
      | nil => cases absolute
      | cons c rest =>
        cases absolute
        exact ⟨rest, rfl⟩
    rw [cutLast, Option.map_eq_none_iff, scanTo_eq_none] at cut
    have never := cut chrSlash (List.mem_reverse.mpr List.mem_cons_self)
    rw [beq_self_eq_true] at never
    cases never
  | some p =>
    have parts : (strsplit (buildFilename p symlink)).foldl stackPart [] =
        (segments p ++ segments symlink).foldl stackPart [] := by
      have split : (strsplit (buildFilename p symlink)).filter (· ≠ []) = solidParts (buildFilename p symlink) := by
        rw [strsplit]
        split
        · rename_i empty
          rw [empty]
          rfl
        · rfl
      rw [← foldl_solid, split, solidParts_buildFilename, ← foldl_solid (segments p ++ segments symlink),
        List.filter_append]
      rfl
    have rounds := resolveRounds (strsplit (buildFilename p symlink)) [] [] rfl
    rw [List.nil_append, List.length_nil, ← List.range_eq_range', parts] at rounds
    rw [resolveSymlink, cut]
    dsimp only
    rw [if_neg relative, joinStrings_eq, List.length_map, rounds, stackParts, dirname, cut]
    rfl

theorem resolveSymlink_eq_climbs : resolveSymlink (ascii "/a/b/c") (ascii "../.././/d/") = ascii "/d" :=
  (resolveSymlink_eq (by decide) (by decide)).trans (by decide)

end GnomeVfs
