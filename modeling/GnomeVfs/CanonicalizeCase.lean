import GnomeVfs.CanonicalizeWalk
import GnomeVfs.UriCanonical

/- Two paths that differ in the case of letters only. The walk passes both in step, so the canonical paths are the
same exactly when no difference is left in an entry that stays. -/
namespace GnomeVfs

section Step

/-- A segment that is pushed wherever it stands. -/
structure IsName (part : Bytes) : Prop where
  nonempty : part ≠ []
  dot : part ≠ [chrDot]
  dots : part ≠ [chrDot, chrDot]

/-- Two segments of one length that differ only where both are names. -/
structure Alike (pair : Bytes × Bytes) : Prop where
  length : pair.1.length = pair.2.length
  names : pair.1 ≠ pair.2 → IsName pair.1 ∧ IsName pair.2

variable {pair : Bytes × Bytes} {stack pairs : List (Bytes × Bytes)} {collapse : Bool}

theorem Alike.same (part : Bytes) : Alike (part, part) := ⟨rfl, fun differ => absurd rfl differ⟩

theorem Alike.special {part : Bytes} (alike : Alike pair) (special : ¬ IsName part) : pair.1 = part ↔ pair.2 = part := by
  by_cases differ : pair.1 = pair.2
  · rw [differ]
  · obtain ⟨first, second⟩ := alike.names differ
    constructor
    · rintro rfl
      exact absurd first special
    · rintro rfl
      exact absurd second special

/-- A difference in an entry of the stack that is still there at the end. -/
def StackDiffers (collapse : Bool) (stack pairs : List (Bytes × Bytes)) : Prop :=
  ∃ above pair below, stack = above ++ pair :: below ∧ pair.1 ≠ pair.2 ∧
    stays 0 collapse above.length (pairs.map Prod.fst) = true

/-- A difference in a segment to come that is still there at the end. -/
def SegmentsDiffer : List (Bytes × Bytes) → Prop
  | [] => False
  | pair :: rest => (pair.1 ≠ pair.2 ∧ stays 0 true 0 (rest.map Prod.fst) = true) ∨ SegmentsDiffer rest

theorem stackDiffers_cons : StackDiffers collapse (pair :: stack) pairs ↔
    (pair.1 ≠ pair.2 ∧ stays 0 collapse 0 (pairs.map Prod.fst) = true) ∨
      ∃ above other below, stack = above ++ other :: below ∧ other.1 ≠ other.2 ∧
        stays 0 collapse (above.length + 1) (pairs.map Prod.fst) = true := by
  constructor
  · rintro ⟨above, other, below, split, differ, left⟩
    cases above with
    | nil =>
      obtain ⟨rfl, rfl⟩ := List.cons.inj split
      exact Or.inl ⟨differ, left⟩
    | cons top above =>
      obtain ⟨rfl, rfl⟩ := List.cons.inj split
      exact Or.inr ⟨above, other, below, rfl, differ, left⟩
  · rintro (⟨differ, left⟩ | ⟨above, other, below, rfl, differ, left⟩)
    · exact ⟨[], pair, stack, rfl, differ, left⟩
    · exact ⟨pair :: above, other, below, rfl, differ, left⟩

theorem not_stackDiffers_nil : ¬ StackDiffers collapse [] pairs := by
  rintro ⟨above, other, below, split, -, -⟩
  cases above with
  | nil => cases split
  | cons top above => cases split

/-- The pairs that the last segment leaves in the path. -/
def restPairs (left : List (Bytes × Bytes)) (last : Bytes × Bytes) : List (Bytes × Bytes) :=
  last :: left.drop (if last.1 = [chrDot, chrDot] then 1 else 0)

theorem exists_mem_drop_iff {α : Type} {p : α → Prop} {entries : List α} {k : Nat} :
    (∃ entry ∈ entries.drop k, p entry) ↔
      ∃ above entry below, entries = above ++ entry :: below ∧ p entry ∧ k ≤ above.length := by
  constructor
  · rintro ⟨entry, member, holds⟩
    obtain ⟨front, back, split⟩ := List.append_of_mem member
    have long : k ≤ entries.length := by
      by_contra short
      rw [List.drop_eq_nil_of_le (by omega)] at member
      cases member
    refine ⟨entries.take k ++ front, entry, back, ?_, holds, ?_⟩
    · rw [List.append_assoc, ← split, List.take_append_drop]
    · rw [List.length_append, List.length_take, Nat.min_eq_left long]
      exact Nat.le_add_right _ _
  · rintro ⟨above, entry, below, rfl, holds, enough⟩
    refine ⟨entry, ?_, holds⟩
    rw [List.drop_append_of_le_length enough]
    exact List.mem_append_right _ (List.mem_cons_self ..)

/-- Both walks in step, and the differences that are left. -/
theorem walkSegments_alike (pairs : List (Bytes × Bytes)) : ∀ (collapse : Bool) (stack : List (Bytes × Bytes)),
    pairs ≠ [] → (∀ pair ∈ pairs, Alike pair) → (∀ pair ∈ stack, Alike pair) → ∃ left last,
      walkSegments collapse (stack.map Prod.fst) (pairs.map Prod.fst) = (left.map Prod.fst, last.1) ∧
      walkSegments collapse (stack.map Prod.snd) (pairs.map Prod.snd) = (left.map Prod.snd, last.2) ∧
      (∀ pair ∈ left, Alike pair) ∧ Alike last ∧
      ((∃ pair ∈ restPairs left last, pair.1 ≠ pair.2) ↔ StackDiffers collapse stack pairs ∨ SegmentsDiffer pairs) := by
  induction pairs with
  | nil => exact fun _ _ none => absurd rfl none
  | cons pair rest ih =>
    intro collapse stack _ alike inside
    have first := alike pair (List.mem_cons_self ..)
    cases rest with
    | nil =>
      refine ⟨stack, pair, rfl, rfl, inside, first, ?_⟩
      rw [restPairs, List.exists_mem_cons_iff, exists_mem_drop_iff, or_comm]
      refine or_congr ?_ (by simp [SegmentsDiffer, stays])
      refine exists_congr fun above => exists_congr fun other => exists_congr fun below =>
        and_congr_right fun _ => and_congr_right fun _ => ?_
      rw [List.map_singleton, stays]
      by_cases dots : pair.1 = [chrDot, chrDot]
      · simp [dots, Nat.one_le_iff_ne_zero, Nat.pos_iff_ne_zero]
      · simp [dots]
    | cons next more =>
      have later := fun collapse stack => ih collapse stack (List.cons_ne_nil next more)
        fun other member => alike other (List.mem_cons_of_mem _ member)
      have empty : pair.1 = [] ↔ pair.2 = [] := first.special fun name => name.nonempty rfl
      have dot : pair.1 = [chrDot] ↔ pair.2 = [chrDot] := first.special fun name => name.dot rfl
      have dots : pair.1 = [chrDot, chrDot] ↔ pair.2 = [chrDot, chrDot] := first.special fun name => name.dots rfl
      have still : ¬ IsName pair.1 → (SegmentsDiffer (pair :: next :: more) ↔ SegmentsDiffer (next :: more)) := by
        intro special
        rw [SegmentsDiffer, or_iff_right]
        exact fun both => special (first.names both.1).1
      simp only [List.map_cons, walkSegments, ← empty, ← dot, ← dots]
      by_cases skipped : pair.1 = [] ∧ collapse = true
      · obtain ⟨left, last, walk, walk', entries, ends, rest⟩ := later true stack inside
        refine ⟨left, last, by rw [if_pos skipped, ← walk]; rfl, by rw [if_pos skipped, ← walk']; rfl, entries, ends, ?_⟩
        rw [rest, still fun name => name.nonempty skipped.1]
        simp only [StackDiffers, List.map_cons, stays, if_pos skipped]
      rw [if_neg skipped, if_neg skipped]
      by_cases single : pair.1 = [chrDot]
      · rw [if_pos single, if_pos single, List.isEmpty_map, List.isEmpty_map]
        obtain ⟨left, last, walk, walk', entries, ends, rest⟩ := later stack.isEmpty stack inside
        refine ⟨left, last, walk, walk', entries, ends, ?_⟩
        rw [rest, still fun name => name.dot single]
        cases stack with
        | nil => rw [or_iff_right not_stackDiffers_nil, or_iff_right not_stackDiffers_nil]
        | cons top below => simp only [StackDiffers, List.map_cons, stays, if_neg skipped, if_pos single, List.isEmpty_cons]
      rw [if_neg single, if_neg single]
      by_cases double : pair.1 = [chrDot, chrDot]
      · rw [still fun name => name.dots double]
        cases stack with
        | nil =>
          have alone : ∀ {p : Prop}, ¬ (p ∧ ([] : List Bytes) ≠ []) := fun both => both.2 rfl
          obtain ⟨left, last, walk, walk', entries, ends, rest⟩ := later true [pair] (by simpa using first)
          refine ⟨left, last, by rw [List.map_nil, if_neg alone]; exact walk,
            by rw [List.map_nil, if_neg alone]; exact walk', entries, ends, ?_⟩
          have pushed : ¬ StackDiffers true [pair] (next :: more) := by
            rw [stackDiffers_cons]
            rintro (⟨differ, -⟩ | ⟨above, other, below, split, -⟩)
            · exact (first.names differ).1.dots double
            · simp at split
          rw [rest, or_iff_right pushed, or_iff_right not_stackDiffers_nil]
        | cons top below =>
          have both : pair.1 = [chrDot, chrDot] ∧ ∀ {f : Bytes × Bytes → Bytes}, (top :: below).map f ≠ [] :=
            ⟨double, by simp⟩
          obtain ⟨left, last, walk, walk', entries, ends, rest⟩ :=
            later true below fun other member => inside other (List.mem_cons_of_mem _ member)
          refine ⟨left, last, by rw [if_pos ⟨double, both.2⟩]; exact walk,
            by rw [if_pos ⟨double, both.2⟩]; exact walk', entries, ends, ?_⟩
          have popped : StackDiffers collapse (top :: below) (pair :: next :: more) ↔
              StackDiffers true below (next :: more) := by
            rw [stackDiffers_cons]
            simp only [List.map_cons, stays, if_neg skipped, if_neg single, if_pos double]
            simp [StackDiffers]
          rw [rest, popped]
      · have other : ∀ {p : Prop}, ¬ (pair.1 = [chrDot, chrDot] ∧ p) := fun both => double both.1
        obtain ⟨left, last, walk, walk', entries, ends, rest⟩ := later true (pair :: stack) fun entry member => by
          rcases List.mem_cons.mp member with rfl | below
          · exact first
          · exact inside entry below
        refine ⟨left, last, by rw [if_neg other]; exact walk, by rw [if_neg other]; exact walk', entries, ends, ?_⟩
        have pushed : StackDiffers true (pair :: stack) (next :: more) ↔
            (pair.1 ≠ pair.2 ∧ stays 0 true 0 ((next :: more).map Prod.fst) = true) ∨
              StackDiffers collapse stack (pair :: next :: more) := by
          rw [stackDiffers_cons]
          simp only [StackDiffers, List.map_cons, stays, if_neg skipped, if_neg single, if_neg double]
        rw [rest, pushed, SegmentsDiffer, or_assoc]
        exact or_left_comm

theorem stays_alike (slack : Nat) (pairs : List (Bytes × Bytes)) : ∀ (collapse : Bool) (above : Nat),
    (∀ pair ∈ pairs, Alike pair) →
      stays slack collapse above (pairs.map Prod.fst) = stays slack collapse above (pairs.map Prod.snd) := by
  induction pairs with
  | nil => exact fun _ _ _ => rfl
  | cons pair rest ih =>
    intro collapse above alike
    have first := alike pair (List.mem_cons_self ..)
    have empty : pair.1 = [] ↔ pair.2 = [] := first.special fun name => name.nonempty rfl
    have dot : pair.1 = [chrDot] ↔ pair.2 = [chrDot] := first.special fun name => name.dot rfl
    have dots : pair.1 = [chrDot, chrDot] ↔ pair.2 = [chrDot, chrDot] := first.special fun name => name.dots rfl
    cases rest with
    | nil => simp only [List.map_cons, List.map_nil, stays, ne_eq, dot, dots]
    | cons next more =>
      have later := fun collapse above => ih collapse above fun other member => alike other (List.mem_cons_of_mem _ member)
      simp only [List.map_cons] at later ⊢
      simp only [stays, empty, dot, dots, later]

end Step

section Text

variable {stack left : List (Bytes × Bytes)} {last : Bytes × Bytes}

theorem stackText_alike (alike : ∀ pair ∈ stack, Alike pair) :
    (stackText false (stack.map Prod.fst)).length = (stackText false (stack.map Prod.snd)).length ∧
      (stackText false (stack.map Prod.fst) = stackText false (stack.map Prod.snd) ↔
        ∀ pair ∈ stack, pair.1 = pair.2) := by
  induction stack with
  | nil => simp
  | cons top below ih =>
    obtain ⟨length, same⟩ := ih fun pair member => alike pair (List.mem_cons_of_mem _ member)
    have first := (alike top (List.mem_cons_self ..)).length
    rw [List.map_cons, List.map_cons, stackText_cons, stackText_cons, List.forall_mem_cons, ← same]
    refine ⟨by simp [length, first], ?_⟩
    constructor
    · intro whole
      obtain ⟨front, back⟩ := List.append_inj whole length
      exact ⟨List.append_cancel_right back, front⟩
    · rintro ⟨top_same, below_same⟩
      rw [top_same, below_same]

theorem trimmed_alike (alike : ∀ pair ∈ stack, Alike pair) :
    trimmed (stackText false (stack.map Prod.fst)) = trimmed (stackText false (stack.map Prod.snd)) ↔
      ∀ pair ∈ stack, pair.1 = pair.2 := by
  obtain ⟨length, same⟩ := stackText_alike alike
  rw [← same]
  constructor
  · intro trim
    rw [trimmed, trimmed, length] at trim
    split at trim
    case isTrue long =>
      have slash : ∀ f : Bytes × Bytes → Bytes, 1 < (stackText false (stack.map f)).length →
          stackText false (stack.map f) = (stackText false (stack.map f)).dropLast ++ [chrSlash] := by
        intro f long
        cases stack with
        | nil => cases long
        | cons top below => rw [List.map_cons, stackText_cons, ← List.append_assoc, List.dropLast_concat]
      rw [slash Prod.fst (length ▸ long), slash Prod.snd long, trim]
    case isFalse => exact trim
  · exact congrArg trimmed

/-- Paths from two walks in step are the same if no pair that is left differs. -/
theorem walkText_alike (alike : ∀ pair ∈ left, Alike pair) (ends : Alike last) :
    walkText (left.map Prod.fst, last.1) = walkText (left.map Prod.snd, last.2) ↔
      ∀ pair ∈ restPairs left last, pair.1 = pair.2 := by
  have dot : last.1 = [chrDot] ↔ last.2 = [chrDot] := ends.special fun name => name.dot rfl
  have dots : last.1 = [chrDot, chrDot] ↔ last.2 = [chrDot, chrDot] := ends.special fun name => name.dots rfl
  rw [walkText, walkText, restPairs, List.forall_mem_cons]
  simp only [← dot, ← dots]
  by_cases single : last.1 = [chrDot]
  · have both : last.1 = last.2 := single.trans (dot.mp single).symm
    have other : last.1 ≠ [chrDot, chrDot] := by
      rw [single]
      decide
    rw [if_pos single, if_pos single, if_neg other, trimmed_alike alike]
    exact ⟨fun same => ⟨both, same⟩, And.right⟩
  rw [if_neg single, if_neg single]
  by_cases double : last.1 = [chrDot, chrDot]
  · have both : last.1 = last.2 := double.trans (dots.mp double).symm
    cases left with
    | nil => simp [both]
    | cons top below =>
      rw [List.map_cons, List.map_cons, if_pos ⟨double, List.cons_ne_nil _ _⟩, if_pos ⟨double, List.cons_ne_nil _ _⟩,
        if_pos double, List.tail_cons, List.tail_cons, List.drop_one, List.tail_cons,
        trimmed_alike fun pair member => alike pair (List.mem_cons_of_mem _ member)]
      exact ⟨fun same => ⟨both, same⟩, And.right⟩
  · obtain ⟨length, same⟩ := stackText_alike alike
    rw [if_neg fun all => double all.1, if_neg fun all => double all.1, if_neg double, List.drop_zero, ← same]
    constructor
    · intro whole
      obtain ⟨front, back⟩ := List.append_inj whole length
      exact ⟨back, front⟩
    · rintro ⟨back, front⟩
      rw [back, front]

theorem walkText_alike_length (alike : ∀ pair ∈ left, Alike pair) (ends : Alike last) :
    (walkText (left.map Prod.fst, last.1)).length = (walkText (left.map Prod.snd, last.2)).length := by
  have dot : last.1 = [chrDot] ↔ last.2 = [chrDot] := ends.special fun name => name.dot rfl
  have dots : last.1 = [chrDot, chrDot] ↔ last.2 = [chrDot, chrDot] := ends.special fun name => name.dots rfl
  have shorter : ∀ {stack : List (Bytes × Bytes)}, (∀ pair ∈ stack, Alike pair) →
      (trimmed (stackText false (stack.map Prod.fst))).length = (trimmed (stackText false (stack.map Prod.snd))).length := by
    intro stack alike
    rw [trimmed_eq_take, trimmed_eq_take, List.length_take, List.length_take, (stackText_alike alike).1]
  rw [walkText, walkText]
  simp only [← dot, ← dots]
  split
  · exact shorter alike
  split
  case isTrue both =>
    cases left with
    | nil => exact absurd rfl both.2
    | cons top below =>
      rw [List.map_cons, List.map_cons, if_pos ⟨both.1, List.cons_ne_nil _ _⟩, List.tail_cons, List.tail_cons]
      exact shorter fun pair member => alike pair (List.mem_cons_of_mem _ member)
  case isFalse both =>
    have other : ¬ (last.1 = [chrDot, chrDot] ∧ left.map Prod.snd ≠ []) := by
      rintro ⟨double, some_left⟩
      exact both ⟨double, by simpa using some_left⟩
    rw [if_neg other, List.length_append, List.length_append, (stackText_alike alike).1, ends.length]

theorem canonicalizePathname_alike {first second : Bytes} {pairs : List (Bytes × Bytes)} (proper : (0 : UInt8) ∉ first)
    (proper' : (0 : UInt8) ∉ second) (fsts : pairs.map Prod.fst = segments first)
    (snds : pairs.map Prod.snd = segments second) (alike : ∀ pair ∈ pairs, Alike pair) :
    (canonicalizePathname first = canonicalizePathname second ↔ ¬ SegmentsDiffer pairs) ∧
      (canonicalizePathname first).length = (canonicalizePathname second).length := by
  have some_pairs : pairs ≠ [] := by
    rintro rfl
    exact segments_ne_nil first fsts.symm
  obtain ⟨left, last, walk, walk', entries, ends, rest⟩ := walkSegments_alike pairs false [] some_pairs alike (by simp)
  rw [List.map_nil, fsts] at walk
  rw [List.map_nil, snds] at walk'
  rw [or_iff_right not_stackDiffers_nil] at rest
  rw [canonicalizePathname_walk proper, canonicalizePathname_walk proper', walk, walk', walkText_alike entries ends, ← rest]
  exact ⟨by simp, walkText_alike_length entries ends⟩

end Text

/-- Whether an upper-case letter in front of the first colon is kept in the canonical path. -/
def keepsUpper : Bytes → Bool
  | [] => false
  | c :: rest =>
    c ≠ chrColon && ((isUpper c && decide (chrColon ∈ rest) && stays 0 true 0 (segments rest).tail) || keepsUpper rest)

theorem lowerScheme_cons (c : UInt8) (rest : Bytes) :
    lowerScheme (c :: rest) = if c = chrColon then c :: rest else toLower c :: lowerScheme rest := by
  by_cases colon : c = chrColon
  · simp [lowerScheme, colon, strdown]
  · simp [lowerScheme, colon, strdown]

theorem lowerScheme_append {front : Bytes} (colon : chrColon ∈ front) (back : Bytes) :
    lowerScheme (front ++ back) = lowerScheme front ++ back := by
  induction front with
  | nil => cases colon
  | cons c rest ih =>
    rw [List.cons_append, lowerScheme_cons, lowerScheme_cons]
    by_cases stop : c = chrColon
    · rw [if_pos stop, if_pos stop]
      rfl
    · rw [if_neg stop, if_neg stop, ih ((List.mem_cons.mp colon).resolve_left (Ne.symm stop))]
      rfl

theorem segments_slash (rest : Bytes) : segments (chrSlash :: rest) = [] :: segments rest :=
  @segments_cons [] (by simp) rest

theorem segments_char {c : UInt8} (other : c ≠ chrSlash) (rest : Bytes) :
    ∃ front more, segments rest = front :: more ∧ segments (c :: rest) = (c :: front) :: more := by
  rcases path_cases rest with clear | ⟨part, tail, rfl, clear⟩
  · refine ⟨rest, [], segments_of_no_slash clear, segments_of_no_slash ?_⟩
    rw [List.mem_cons, not_or]
    exact ⟨Ne.symm other, clear⟩
  · refine ⟨part, segments tail, segments_cons clear tail, ?_⟩
    rw [← List.cons_append]
    refine segments_cons ?_ tail
    rw [List.mem_cons, not_or]
    exact ⟨Ne.symm other, clear⟩

theorem segments_append_slash (front back : Bytes) :
    segments (front ++ chrSlash :: back) = segments front ++ segments back := by
  induction front with
  | nil => exact segments_slash back
  | cons c rest ih =>
    by_cases slash : c = chrSlash
    · rw [slash, List.cons_append, segments_slash, segments_slash, ih, List.cons_append]
    · obtain ⟨first, more, shape, whole⟩ := segments_char slash rest
      obtain ⟨first', more', shape', whole'⟩ := segments_char slash (rest ++ chrSlash :: back)
      rw [shape, shape', List.cons_append] at ih
      obtain ⟨rfl, rfl⟩ := List.cons.inj ih
      rw [List.cons_append, whole, whole', List.cons_append]

theorem segments_concat {c : UInt8} (other : c ≠ chrSlash) (front : Bytes) :
    ∃ last, (segments (front ++ [c])).getLast? = some (last ++ [c]) := by
  induction front with
  | nil => exact ⟨[], by rw [List.nil_append, segments_of_no_slash (by simpa using Ne.symm other)]; rfl⟩
  | cons d rest ih =>
    obtain ⟨last, ends⟩ := ih
    rw [List.cons_append]
    by_cases slash : d = chrSlash
    · obtain ⟨next, more, shape⟩ := List.exists_cons_of_ne_nil (segments_ne_nil (rest ++ [c]))
      refine ⟨last, ?_⟩
      rw [slash, segments_slash, shape, List.getLast?_cons_cons, ← shape, ends]
    · obtain ⟨first, more, shape, whole⟩ := segments_char slash (rest ++ [c])
      rw [shape] at ends
      rw [whole]
      cases more with
      | nil =>
        rw [List.getLast?_singleton, Option.some.injEq] at ends
        exact ⟨d :: last, by rw [ends]; rfl⟩
      | cons next more =>
        rw [List.getLast?_cons_cons] at ends ⊢
        exact ⟨last, ends⟩

theorem IsName.cons {part : Bytes} (name : IsName part) (c : UInt8) : IsName (c :: part) := by
  refine ⟨List.cons_ne_nil _ _, fun same => name.nonempty (List.cons.inj same).2, fun same => name.dot ?_⟩
  exact (List.cons.inj same).2

theorem IsName.of_head {c : UInt8} (other : c ≠ chrDot) (part : Bytes) : IsName (c :: part) :=
  ⟨List.cons_ne_nil _ _, fun same => other (List.cons.inj same).1, fun same => other (List.cons.inj same).1⟩

theorem Alike.cons {pair : Bytes × Bytes} (alike : Alike pair) {c d : UInt8} (letters : c ≠ d → c ≠ chrDot ∧ d ≠ chrDot) :
    Alike (c :: pair.1, d :: pair.2) := by
  refine ⟨congrArg (· + 1) alike.length, fun differ => ?_⟩
  by_cases same : c = d
  · have inner : pair.1 ≠ pair.2 := by
      intro equal
      rw [same, equal] at differ
      exact differ rfl
    exact ⟨(alike.names inner).1.cons c, (alike.names inner).2.cons d⟩
  · exact ⟨.of_head (letters same).1 _, .of_head (letters same).2 _⟩

theorem not_segmentsDiffer_same (segs : List Bytes) : ¬ SegmentsDiffer (segs.map fun part => (part, part)) := by
  induction segs with
  | nil => exact id
  | cons part rest ih => exact fun differs => differs.elim (fun both => both.1 rfl) ih

theorem toLower_ne_iff {c : UInt8} : toLower c ≠ c ↔ isUpper c = true := by
  rw [toLower]
  split
  case isTrue upper => simp [upper]
  case isFalse lower => simp [lower]

theorem upper_ne {c d : UInt8} (upper : isUpper c = true) (small : d < 65) : c ≠ d ∧ toLower c ≠ d := by
  rw [toLower, if_pos upper]
  rw [isUpper, Bool.and_eq_true, decide_eq_true_eq, decide_eq_true_eq, UInt8.le_iff_toNat_le, UInt8.le_iff_toNat_le] at upper
  rw [UInt8.lt_iff_toNat_lt] at small
  have low : 65 ≤ c.toNat := upper.1
  have high : c.toNat ≤ 90 := upper.2
  have below : d.toNat < 65 := small
  have sum : (c + 32).toNat = c.toNat + 32 := by
    rw [UInt8.toNat_add]
    change (c.toNat + 32) % 2 ^ 8 = _
    omega
  constructor
  · rintro rfl
    omega
  · rintro rfl
    omega

theorem toLower_ne {c d : UInt8} (small : d < 65) (other : c ≠ d) : toLower c ≠ d := by
  by_cases upper : isUpper c = true
  · exact (upper_ne upper small).2
  · rwa [toLower, if_neg upper]

theorem lowerScheme_not_mem {d : UInt8} (small : d < 65) {q : Bytes} (absent : d ∉ q) : d ∉ lowerScheme q := by
  rw [lowerScheme, List.mem_append, not_or]
  refine ⟨?_, fun member => absent ((List.dropWhile_suffix _).mem member)⟩
  intro member
  obtain ⟨c, inside, same⟩ := List.mem_map.mp member
  refine toLower_ne small ?_ same
  rintro rfl
  exact absent ((List.takeWhile_prefix _).mem inside)

/-- The segments of a text and of the text with its scheme in lower case. -/
theorem lowerScheme_pairs (q : Bytes) (colon : chrColon ∈ q) : ∃ pairs : List (Bytes × Bytes),
    pairs.map Prod.fst = segments q ∧ pairs.map Prod.snd = segments (lowerScheme q) ∧ (∀ pair ∈ pairs, Alike pair) ∧
      (SegmentsDiffer pairs ↔ keepsUpper q = true) := by
  induction q with
  | nil => cases colon
  | cons c rest ih =>
    rw [lowerScheme_cons, keepsUpper]
    by_cases stop : c = chrColon
    · rw [if_pos stop]
      have back : ∀ f : Bytes × Bytes → Bytes, (∀ part, f (part, part) = part) →
          ((segments (c :: rest)).map fun part => (part, part)).map f = segments (c :: rest) := by
        intro f same
        rw [List.map_map]
        exact List.map_id'' same _
      refine ⟨(segments (c :: rest)).map fun part => (part, part), back _ fun _ => rfl, back _ fun _ => rfl, ?_, ?_⟩
      · intro pair member
        obtain ⟨part, -, rfl⟩ := List.mem_map.mp member
        exact .same part
      · simp [not_segmentsDiffer_same, stop]
    · have later : chrColon ∈ rest := (List.mem_cons.mp colon).resolve_left (Ne.symm stop)
      obtain ⟨pairs, fsts, snds, alike, differ⟩ := ih later
      rw [if_neg stop, decide_eq_true stop, decide_eq_true later, Bool.true_and, Bool.and_true]
      by_cases slash : c = chrSlash
      · have low : toLower chrSlash = chrSlash := by decide
        have lower : isUpper chrSlash = false := by decide
        rw [slash, low, lower, segments_slash, segments_slash]
        refine ⟨([], []) :: pairs, by rw [List.map_cons, fsts], by rw [List.map_cons, snds], ?_, ?_⟩
        · intro pair member
          rcases List.mem_cons.mp member with rfl | inside
          · exact .same []
          · exact alike pair inside
        · simp [SegmentsDiffer, differ]
      · have low : toLower c ≠ chrSlash := toLower_ne (by decide) slash
        obtain ⟨front, more, shape, whole⟩ := segments_char slash rest
        obtain ⟨front', more', shape', whole'⟩ := segments_char low (lowerScheme rest)
        rw [shape] at fsts
        rw [shape'] at snds
        cases pairs with
        | nil => cases fsts
        | cons first others =>
          obtain ⟨rfl, rfl⟩ := List.cons.inj fsts
          obtain ⟨rfl, rfl⟩ := List.cons.inj snds
          rw [whole, whole', shape, List.tail_cons]
          refine ⟨(c :: first.1, toLower c :: first.2) :: others, rfl, rfl, ?_, ?_⟩
          · intro pair member
            rcases List.mem_cons.mp member with rfl | inside
            · refine (alike first (List.mem_cons_self ..)).cons fun differ => ?_
              exact upper_ne (toLower_ne_iff.mp (Ne.symm differ)) (by decide)
            · exact alike pair (List.mem_cons_of_mem _ inside)
          · have either : c :: first.1 ≠ toLower c :: first.2 ↔ isUpper c = true ∨ first.1 ≠ first.2 := by
              rw [← toLower_ne_iff, ne_eq, List.cons.injEq, not_and_or, eq_comm]
            rw [Bool.or_eq_true, Bool.and_eq_true, ← differ, SegmentsDiffer, SegmentsDiffer, either, or_and_right, or_assoc]

/-- Lower case in front of the first colon makes no difference exactly when no upper-case letter there is kept. -/
theorem canonicalizePathname_lowerScheme {q : Bytes} (proper : (0 : UInt8) ∉ q) (colon : chrColon ∈ q) :
    (canonicalizePathname q = canonicalizePathname (lowerScheme q) ↔ keepsUpper q = false) ∧
      (canonicalizePathname q).length = (canonicalizePathname (lowerScheme q)).length := by
  obtain ⟨pairs, fsts, snds, alike, differ⟩ := lowerScheme_pairs q colon
  rw [← Bool.not_eq_true, ← differ]
  exact canonicalizePathname_alike proper (lowerScheme_not_mem (by decide) proper) fsts snds alike

theorem stays_append_empty (slack : Nat) (segs : List Bytes) : ∀ (collapse : Bool) (above : Nat),
    stays slack collapse above (segs ++ [[]]) = stays 0 collapse above segs := by
  induction segs with
  | nil => exact fun _ _ => rfl
  | cons part rest ih =>
    intro collapse above
    cases rest with
    | nil =>
      have ended : ∀ (flag : Bool) (entries : Nat), stays slack flag entries [[]] = true := fun _ _ => rfl
      rw [List.cons_append, List.nil_append, stays, stays, ended, ended, ended, ended]
      by_cases dot : part = [chrDot]
      · simp [dot]
      · by_cases dots : part = [chrDot, chrDot]
        · simp [dots]
        · simp [dot, dots]
    | cons next more =>
      rw [List.cons_append, List.cons_append, stays, stays, ← List.cons_append, ih, ih, ih, ih]

theorem keepsUpper_slashes (text : Bytes) (n : Nat) : keepsUpper (text ++ List.replicate n chrSlash) = keepsUpper text := by
  induction n with
  | zero => rw [List.replicate_zero, List.append_nil]
  | succ n ih =>
    rw [List.replicate_succ', ← List.append_assoc, ← ih]
    generalize text ++ List.replicate n chrSlash = text
    induction text with
    | nil => rfl
    | cons c rest ih =>
      obtain ⟨next, more, shape⟩ := List.exists_cons_of_ne_nil (segments_ne_nil rest)
      have colon : chrColon ∈ rest ++ [chrSlash] ↔ chrColon ∈ rest := by simp
      have tail : stays 0 true 0 (segments (rest ++ [chrSlash])).tail = stays 0 true 0 (segments rest).tail := by
        rw [segments_append_slash, shape, List.cons_append, List.tail_cons, List.tail_cons]
        exact stays_append_empty 0 more true 0
      rw [List.cons_append, keepsUpper, keepsUpper, ih, tail]
      simp only [colon]

/-- Without a colon there is no scheme to be put in lower case. -/
theorem keepsUpper_of_no_colon {text : Bytes} (clear : chrColon ∉ text) : keepsUpper text = false := by
  induction text with
  | nil => rfl
  | cons c rest ih =>
    rw [List.mem_cons, not_or] at clear
    rw [keepsUpper, ih clear.2, decide_eq_false clear.2]
    simp

theorem lowerScheme_stays (slack : Nat) {text : Bytes} (colon : chrColon ∈ text) :
    stays slack true 0 (segments text).tail = stays slack true 0 (segments (lowerScheme text)).tail := by
  obtain ⟨pairs, fsts, snds, alike, -⟩ := lowerScheme_pairs text colon
  rw [← fsts, ← snds, ← List.map_tail, ← List.map_tail]
  exact stays_alike slack pairs.tail true 0 fun pair member => alike pair (List.mem_of_mem_tail member)

theorem keepsUpper_append {front : Bytes} (lower : ∀ c ∈ front, isUpper c = false ∧ c ≠ chrColon) (back : Bytes) :
    keepsUpper (front ++ back) = keepsUpper back := by
  induction front with
  | nil => rfl
  | cons c rest ih =>
    obtain ⟨first, later⟩ := List.forall_mem_cons.mp lower
    rw [List.cons_append, keepsUpper, ih later, first.1, decide_eq_true first.2]
    simp

end GnomeVfs
