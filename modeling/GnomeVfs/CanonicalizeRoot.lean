import GnomeVfs.CanonicalizeWalk
import GnomeVfs.UriNormalize
import GnomeVfs.UriParsed

/- Whether an absolute path stays absolute: the slash at its start is the first entry of the walk, and a `..`
may take it away. -/
namespace GnomeVfs

section Root

variable {stack above : List Bytes} {bottom tail last : Bytes}

theorem stackText_concat : stackText false (above ++ [bottom]) = bottom ++ chrSlash :: stackText false above := by
  simp [stackText]

@[simp] theorem isRooted_nil : isRooted [] = false := rfl

@[simp] theorem isRooted_slash : isRooted (chrSlash :: tail) = true := rfl

theorem isRooted_trimmed (front : Bytes) : isRooted (trimmed front) = isRooted front := by
  cases front with
  | nil => rfl
  | cons c rest =>
    cases rest with
    | nil => rfl
    | cons d more => rfl

theorem isRooted_clear {part : Bytes} (clear : chrSlash ∉ part) (nonempty : part ≠ []) (tail : Bytes) :
    isRooted (part ++ tail) = false := by
  cases part with
  | nil => exact absurd rfl nonempty
  | cons c more =>
    have other : c ≠ chrSlash := by
      rintro rfl
      exact clear (List.mem_cons_self ..)
    simp [isRooted, other]

/-- The entries have no empty one at the bottom. -/
structure Rootless (stack : List Bytes) : Prop where
  clear : ∀ part ∈ stack, chrSlash ∉ part
  bottom : stack.getLast? ≠ some []

theorem Rootless.nil : Rootless [] := ⟨by simp, by simp⟩

theorem Rootless.pop (rootless : Rootless stack) : Rootless stack.tail := by
  cases stack with
  | nil => exact .nil
  | cons top below =>
    refine ⟨fun part member => rootless.clear part (List.mem_cons_of_mem _ member), ?_⟩
    cases below with
    | nil => simp
    | cons next more =>
      have bottom := rootless.bottom
      rwa [List.getLast?_cons_cons] at bottom

theorem Rootless.push {part : Bytes} (rootless : Rootless stack) (clear : chrSlash ∉ part)
    (first : stack = [] → part ≠ []) : Rootless (part :: stack) := by
  constructor
  · intro other member
    rcases List.mem_cons.mp member with rfl | inside
    · exact clear
    · exact rootless.clear other inside
  · cases stack with
    | nil =>
      rw [List.getLast?_singleton]
      exact fun same => first rfl (Option.some.inj same)
    | cons next more =>
      rw [List.getLast?_cons_cons]
      exact rootless.bottom

theorem Rootless.text (rootless : Rootless stack) (relative : stack = [] → isRooted tail = false) :
    isRooted (stackText false stack ++ tail) = false := by
  rcases List.eq_nil_or_concat stack with rfl | ⟨above, bottom, rfl⟩
  · exact relative rfl
  · have some_bottom : bottom ≠ [] := by
      rintro rfl
      exact rootless.bottom (by rw [List.concat_eq_append, List.getLast?_concat])
    rw [List.concat_eq_append, stackText_concat, List.append_assoc]
    exact isRooted_clear (rootless.clear bottom (by simp)) some_bottom _

theorem Rootless.walked (rootless : Rootless stack) (clear : chrSlash ∉ last) :
    isRooted (walkText (stack, last)) = false := by
  have front : ∀ {stack : List Bytes}, Rootless stack → isRooted (trimmed (stackText false stack)) = false := by
    intro stack rootless
    rw [isRooted_trimmed, ← List.append_nil (stackText false stack)]
    exact rootless.text fun _ => rfl
  rw [walkText]
  split
  · exact front rootless
  split
  · exact front rootless.pop
  · refine rootless.text fun _ => ?_
    by_cases empty : last = []
    · exact empty ▸ rfl
    · have := isRooted_clear clear empty []
      rwa [List.append_nil] at this

/-- Once the root is gone it does not come back. -/
theorem walkSegments_rootless (segs : List Bytes) : ∀ (collapse : Bool) (stack : List Bytes), segs ≠ [] →
    (∀ part ∈ segs, chrSlash ∉ part) → Rootless stack → (stack = [] → collapse = true) →
      isRooted (walkText (walkSegments collapse stack segs)) = false := by
  induction segs with
  | nil => exact fun _ _ none => absurd rfl none
  | cons part rest ih =>
    intro collapse stack _ clear rootless start
    cases rest with
    | nil => exact rootless.walked (clear part (List.mem_cons_self ..))
    | cons next more =>
      have later := fun collapse stack => ih collapse stack (List.cons_ne_nil next more)
        fun other member => clear other (List.mem_cons_of_mem _ member)
      rw [walkSegments]
      split
      case isTrue => exact later _ _ rootless fun _ => rfl
      case isFalse skipped =>
        split
        case isTrue =>
          refine later _ _ rootless fun none => ?_
          rw [none]
          rfl
        case isFalse =>
          split
          case isTrue => exact later _ _ rootless.pop fun _ => rfl
          case isFalse =>
            refine later _ _ (rootless.push (clear part (List.mem_cons_self ..)) fun none empty => ?_) fun _ => rfl
            exact skipped ⟨empty, start none⟩

theorem walkText_root (above : List Bytes) (last : Bytes) :
    isRooted (walkText (above ++ [[]], last)) = stays 0 true above.length [last] := by
  have front : ∀ above : List Bytes, isRooted (trimmed (stackText false (above ++ [[]]))) = true := by
    intro above
    rw [isRooted_trimmed, stackText_concat]
    rfl
  rw [walkText, stays]
  dsimp only
  by_cases dot : last = [chrDot]
  · rw [if_pos dot, front, dot]
    rfl
  rw [if_neg dot]
  by_cases dots : last = [chrDot, chrDot]
  · rw [if_pos ⟨dots, by simp⟩, dots]
    cases above with
    | nil => rfl
    | cons top above =>
      rw [List.cons_append, List.tail_cons, front]
      simp
  · rw [if_neg fun both => dots both.1, stackText_concat]
    simp [dot, dots]

/-- The path is still absolute at the end exactly when the root stays. -/
theorem walkSegments_root (segs : List Bytes) : ∀ (collapse : Bool) (above : List Bytes), segs ≠ [] →
    (∀ part ∈ segs, chrSlash ∉ part) →
      isRooted (walkText (walkSegments collapse (above ++ [[]]) segs)) = stays 0 collapse above.length segs := by
  induction segs with
  | nil => exact fun _ _ none => absurd rfl none
  | cons part rest ih =>
    intro collapse above _ clear
    have some_stack : above ++ [[]] ≠ [] := by simp
    cases rest with
    | nil => exact walkText_root above part
    | cons next more =>
      have behind : ∀ other ∈ next :: more, chrSlash ∉ other :=
        fun other member => clear other (List.mem_cons_of_mem _ member)
      have later := fun collapse above => ih collapse above (List.cons_ne_nil next more) behind
      rw [walkSegments, stays]
      by_cases skipped : part = [] ∧ collapse = true
      · rw [if_pos skipped, if_pos skipped, later]
      rw [if_neg skipped, if_neg skipped]
      by_cases dot : part = [chrDot]
      · rw [if_pos dot, if_pos dot, List.isEmpty_eq_false_iff.mpr some_stack, later]
      rw [if_neg dot, if_neg dot]
      by_cases dots : part = [chrDot, chrDot]
      · rw [if_pos ⟨dots, some_stack⟩, if_pos dots]
        cases above with
        | nil =>
          have gone := walkSegments_rootless (next :: more) true [] (List.cons_ne_nil _ _) behind .nil fun _ => rfl
          rw [List.nil_append, List.tail_cons, gone]
          rfl
        | cons top above =>
          rw [List.cons_append, List.tail_cons, later]
          simp
      · rw [if_neg fun both => dots both.1, if_neg dots, ← List.cons_append, later, List.length_cons]

theorem isRooted_iff {path : Bytes} : isRooted path = true ↔ ∃ rest, path = chrSlash :: rest := by
  cases path with
  | nil => simp
  | cons c rest => simp [isRooted]

theorem isRooted_canonicalizePathname {path : Bytes} (proper : (0 : UInt8) ∉ path) (absolute : isRooted path = true) :
    isRooted (canonicalizePathname path) = stays 0 true 0 (segments path.tail) := by
  obtain ⟨rest, rfl⟩ := isRooted_iff.mp absolute
  have first : segments (chrSlash :: rest) = [] :: segments rest := @segments_cons [] (by simp) rest
  have root := walkSegments_root (segments rest) true [] (segments_ne_nil rest) (segments_clear rest.length (Nat.le_refl _))
  obtain ⟨next, more, shape⟩ := List.exists_cons_of_ne_nil (segments_ne_nil rest)
  rw [canonicalizePathname_walk proper, first, List.tail_cons, shape, walkSegments, if_neg (by simp), if_neg (by decide),
    if_neg fun both => both.2 rfl, ← shape]
  exact root

end Root

section Element

variable {Method : Type} (ctx : UriContext Method)

/-- The text of a `file` element before its escapes are made canonical: what `split_toplevel_uri` leaves of a
text with an authority, and any other text as it is. -/
def elementPath (hasParent : Bool) (text : Bytes) (after : UInt8) : Option Bytes :=
  if !hasParent ∧ text.take 2 = [chrSlash, chrSlash] then (splitToplevelUri (text.drop 2) after).text else some text

/-- The text with its escapes made canonical. -/
def escapedPath (text : Bytes) : Bytes := (removeOptionalEscapes ctx.beyond (escapeSet text escapedCharacters)).1

theorem setUriElement_file (hasParent : Bool) {text : Bytes} (nonempty : text ≠ []) (after : UInt8) :
    (setUriElement ctx hasParent (ascii "file") text after).1 =
      (elementPath hasParent text after).map fun path => canonicalizePathname (escapedPath ctx path) := by
  have other : ascii "file" ∉ unescapedMethods := by decide
  have normalize : normalizeText ctx (ascii "file") = fun path => canonicalizePathname (escapedPath ctx path) := by
    funext path
    rw [normalizeText, if_neg other, escapedPath]
  rw [setUriElement, if_neg nonempty, elementPath]
  split
  · rw [normalize]
  · rw [normalize]
    rfl

theorem escapedPath_slash (rest : Bytes) : escapedPath ctx (chrSlash :: rest) = chrSlash :: escapedPath ctx rest := by
  have kept : escapeSet (chrSlash :: rest) escapedCharacters = chrSlash :: escapeSet rest escapedCharacters := rfl
  have legal : ¬ (127 < chrSlash ∨ uriCharacterKind ctx.beyond chrSlash = .delimiters ∨
      uriCharacterKind ctx.beyond chrSlash = .unwise ∨ uriCharacterKind ctx.beyond chrSlash = .control) := by
    rw [uriCharacterKind, if_pos (by decide)]
    decide
  rw [escapedPath, kept, removeOptionalEscapes.eq_def]
  dsimp only
  rw [if_neg (by decide), if_neg legal]
  rfl

theorem escapedPath_proper {text : Bytes} (proper : (0 : UInt8) ∉ text) : (0 : UInt8) ∉ escapedPath ctx text :=
  removeOptionalEscapes_not_mem ctx.beyond (by decide) (escapeSet_not_mem (by decide) (Or.inl proper))

theorem elementPath_proper {hasParent : Bool} {text path : Bytes} {after : UInt8} (proper : (0 : UInt8) ∉ text)
    (found : elementPath hasParent text after = some path) : (0 : UInt8) ∉ path ∧ (isRooted text = true →
      path = [] ∨ isRooted path = true) := by
  rw [elementPath] at found
  split at found
  · have behind : (0 : UInt8) ∉ text.drop 2 := fun member => proper (List.mem_of_mem_drop member)
    rcases ((splitToplevelUri_parsed behind after).2.1 path found).1 with empty | root | ⟨part, rest, slash⟩
    · exact ⟨empty ▸ List.not_mem_nil, fun _ => Or.inl empty⟩
    · exact ⟨root ▸ by decide, fun _ => Or.inr (root ▸ rfl)⟩
    · exact ⟨fun member => behind (part.subset member), fun _ => Or.inr (slash ▸ rfl)⟩
  · cases found
    exact ⟨proper, Or.inr⟩

/-- An absolute path stays absolute exactly when no `..` takes the slash at its start away; and so does the text
of a `file` element, where it has a path behind its authority. -/
theorem makePathNameCanonical_rooted_iff {p : Bytes} (proper : (0 : UInt8) ∉ p) (absolute : p.head? = some chrSlash)
    (hasParent : Bool) (after : UInt8) :
    (∃ result, makePathNameCanonical p = some result ∧
      (result.head? = some chrSlash ↔ stays 0 true 0 (segments p.tail) = true)) ∧
    ((∃ text, (setUriElement ctx hasParent (ascii "file") p after).1 = some text ∧ text.head? = some chrSlash) ↔
      ∃ path, elementPath hasParent p after = some path ∧ path ≠ [] ∧
        stays 0 true 0 (segments (escapedPath ctx path).tail) = true) := by
  have rooted : ∀ {s : Bytes}, isRooted s = true ↔ s.head? = some chrSlash := decide_eq_true_iff
  have nonempty : p ≠ [] := by
    rintro rfl
    cases absolute
  constructor
  · refine ⟨canonicalizePathname p, makePathNameCanonical_eq p, ?_⟩
    rw [← rooted, isRooted_canonicalizePathname proper (rooted.mpr absolute)]
  · have behind : ∀ path, elementPath hasParent p after = some path →
        ((canonicalizePathname (escapedPath ctx path)).head? = some chrSlash ↔
          path ≠ [] ∧ stays 0 true 0 (segments (escapedPath ctx path).tail) = true) := by
      intro path found
      obtain ⟨clean, empty | slash⟩ := (elementPath_proper proper found).imp_right fun h => h (rooted.mpr absolute)
      · subst empty
        have nothing : canonicalizePathname (escapedPath ctx []) = [] := rfl
        rw [nothing]
        simp
      · obtain ⟨rest, rfl⟩ := isRooted_iff.mp slash
        have start : isRooted (escapedPath ctx (chrSlash :: rest)) = true := by
          rw [escapedPath_slash]
          rfl
        rw [← rooted, isRooted_canonicalizePathname (escapedPath_proper ctx clean) start]
        simp
    rw [setUriElement_file ctx hasParent nonempty after]
    constructor
    · rintro ⟨text, stored, slash⟩
      obtain ⟨path, found, rfl⟩ := Option.map_eq_some_iff.mp stored
      exact ⟨path, found, (behind path found).mp slash⟩
    · rintro ⟨path, found, both⟩
      exact ⟨_, by rw [found]; rfl, (behind path found).mpr both⟩

theorem makePathNameCanonical_rooted_up :
    (∃ result, makePathNameCanonical (ascii "/a/../b") = some result ∧
      (result.head? = some chrSlash ↔ stays 0 true 0 (segments (ascii "/a/../b").tail) = true)) ∧
    ((∃ text, (setUriElement plainContext false (ascii "file") (ascii "/a/../b") 0).1 = some text ∧
        text.head? = some chrSlash) ↔
      ∃ path, elementPath false (ascii "/a/../b") 0 = some path ∧ path ≠ [] ∧
        stays 0 true 0 (segments (escapedPath plainContext path).tail) = true) :=
  makePathNameCanonical_rooted_iff plainContext (by decide) (by decide) false 0

/-- A `..` behind the root takes the root away. -/
theorem makePathNameCanonical_above_root :
    makePathNameCanonical (ascii "/../a") = some (ascii "a") ∧
      (setUriElement plainContext false (ascii "file") (ascii "/../a") 0).1 = some (ascii "a") := by
  decide +kernel

end Element

end GnomeVfs
