import GnomeVfs.CanonicalizeCase
import GnomeVfs.CanonicalizeRoot

/- A walk does not see the entries below as long as the lowest entry of its own stays. What a walk leaves of a path
behind an entry is told from the same walk without that entry. -/
namespace GnomeVfs

section Frame

variable {above below stack : List Bytes} {collapse : Bool}

theorem stays_weaken (segs : List Bytes) : ∀ (collapse : Bool) (above : Nat),
    stays 1 collapse above segs = true → stays 0 collapse above segs = true := by
  induction segs with
  | nil => exact fun _ _ _ => rfl
  | cons part rest ih =>
    intro collapse above kept
    cases rest with
    | nil =>
      rw [stays, Bool.and_eq_true] at kept ⊢
      simp only [Bool.or_eq_true, decide_eq_true_eq] at kept ⊢
      exact ⟨kept.1.imp_right fun _ => Nat.zero_le _, kept.2.imp_right fun enough => by omega⟩
    | cons next more =>
      rw [stays] at kept ⊢
      split at kept
      case isTrue skipped =>
        rw [if_pos skipped]
        exact ih _ _ kept
      case isFalse skipped =>
        rw [if_neg skipped]
        split at kept
        case isTrue dot =>
          rw [if_pos dot]
          exact ih _ _ kept
        case isFalse dot =>
          rw [if_neg dot]
          split at kept
          case isTrue dots =>
            rw [if_pos dots]
            rw [Bool.and_eq_true] at kept ⊢
            exact ⟨kept.1, ih _ _ kept.2⟩
          case isFalse dots =>
            rw [if_neg dots]
            exact ih _ _ kept

/-- While the entries above are enough, the walk leaves the entries below alone. -/
theorem walkSegments_above (segs : List Bytes) : ∀ (collapse : Bool) (above : List Bytes), segs ≠ [] →
    stays 0 collapse above.length segs = true → ∃ left last,
      (∀ below, below ≠ [] → walkSegments collapse (above ++ below) segs = (left ++ below, last)) ∧
      (last = [chrDot, chrDot] → left ≠ []) ∧
      (stays 1 collapse above.length segs = true ↔
        (last = [chrDot] → left ≠ []) ∧ (last = [chrDot, chrDot] → left.tail ≠ [])) := by
  induction segs with
  | nil => exact fun _ _ none => absurd rfl none
  | cons part rest ih =>
    intro collapse above _ kept
    cases rest with
    | nil =>
      refine ⟨above, part, fun _ _ => rfl, ?_, ?_⟩
      · rintro rfl
        rintro rfl
        cases kept
      · rw [stays, Bool.and_eq_true]
        simp only [Bool.or_eq_true, decide_eq_true_eq, ne_eq, ← imp_iff_not_or, ← List.length_eq_zero_iff, List.length_tail]
        constructor
        · rintro ⟨dot, dots⟩
          exact ⟨fun same => by have := dot same; omega, fun same => by have := dots same; omega⟩
        · rintro ⟨dot, dots⟩
          exact ⟨fun same => by have := dot same; omega, fun same => by have := dots same; omega⟩
    | cons next more =>
      have later := fun collapse above => ih collapse above (List.cons_ne_nil next more)
      rw [stays] at kept ⊢
      by_cases skipped : part = [] ∧ collapse = true
      · rw [if_pos skipped] at kept ⊢
        obtain ⟨left, last, walk, rest⟩ := later true above kept
        refine ⟨left, last, fun below some_below => ?_, rest⟩
        rw [walkSegments, if_pos skipped, walk below some_below]
      rw [if_neg skipped] at kept ⊢
      by_cases dot : part = [chrDot]
      · rw [if_pos dot] at kept ⊢
        obtain ⟨left, last, walk, rest⟩ := later false above kept
        refine ⟨left, last, fun below some_below => ?_, rest⟩
        have some_stack : (above ++ below).isEmpty = false := by simp [some_below]
        rw [walkSegments, if_neg skipped, if_pos dot, some_stack, walk below some_below]
      rw [if_neg dot] at kept ⊢
      by_cases dots : part = [chrDot, chrDot]
      · rw [if_pos dots, Bool.and_eq_true, decide_eq_true_eq] at kept
        rw [if_pos dots, decide_eq_true kept.1, Bool.true_and]
        cases above with
        | nil => exact absurd kept.1 (Nat.lt_irrefl 0)
        | cons top above =>
          obtain ⟨left, last, walk, rest⟩ := later true above kept.2
          refine ⟨left, last, fun below some_below => ?_, rest⟩
          rw [walkSegments, if_neg skipped, if_neg dot, if_pos ⟨dots, List.cons_ne_nil _ _⟩, List.cons_append,
            List.tail_cons, walk below some_below]
      · rw [if_neg dots] at kept ⊢
        obtain ⟨left, last, walk, rest⟩ := later true (part :: above) kept
        refine ⟨left, last, fun below some_below => ?_, rest⟩
        rw [walkSegments, if_neg skipped, if_neg dot, if_neg fun both => dots both.1, ← List.cons_append,
          walk below some_below]

/-- Where an entry is taken away, the walk goes on with what stood below it. -/
theorem walkSegments_popped (segs : List Bytes) : ∀ (collapse : Bool) (above : List Bytes), segs ≠ [] →
    (∀ part ∈ segs, chrSlash ∉ part) → stays 0 collapse above.length segs = false → ∃ segs',
      segs' ≠ [] ∧ (∀ part ∈ segs', chrSlash ∉ part) ∧ ∀ entry below,
        walkText (walkSegments collapse (above ++ entry :: below) segs) = walkText (walkSegments true below segs') := by
  induction segs with
  | nil => exact fun _ _ none => absurd rfl none
  | cons part rest ih =>
    intro collapse above _ clear gone
    cases rest with
    | nil =>
      have dots : part = [chrDot, chrDot] := by
        by_contra other
        simp [stays, other] at gone
      subst dots
      have none_above : above = [] := by simpa [stays] using gone
      subst none_above
      refine ⟨[[chrDot]], List.cons_ne_nil _ _, by decide, fun entry below => ?_⟩
      rw [List.nil_append, walkSegments, walkSegments, walkText, walkText]
      simp
    | cons next more =>
      have behind : ∀ other ∈ next :: more, chrSlash ∉ other :=
        fun other member => clear other (List.mem_cons_of_mem _ member)
      have later := fun collapse above => ih collapse above (List.cons_ne_nil next more) behind
      rw [stays] at gone
      by_cases skipped : part = [] ∧ collapse = true
      · rw [if_pos skipped] at gone
        obtain ⟨segs', some_segs, clear', walk⟩ := later true above gone
        refine ⟨segs', some_segs, clear', fun entry below => ?_⟩
        rw [walkSegments, if_pos skipped, walk]
      rw [if_neg skipped] at gone
      by_cases dot : part = [chrDot]
      · rw [if_pos dot] at gone
        obtain ⟨segs', some_segs, clear', walk⟩ := later false above gone
        refine ⟨segs', some_segs, clear', fun entry below => ?_⟩
        have some_stack : (above ++ entry :: below).isEmpty = false := by simp
        rw [walkSegments, if_neg skipped, if_pos dot, some_stack, walk]
      rw [if_neg dot] at gone
      by_cases dots : part = [chrDot, chrDot]
      · rw [if_pos dots] at gone
        cases above with
        | nil =>
          refine ⟨next :: more, List.cons_ne_nil _ _, behind, fun entry below => ?_⟩
          rw [List.nil_append, walkSegments, if_neg skipped, if_neg dot, if_pos ⟨dots, List.cons_ne_nil _ _⟩, List.tail_cons]
        | cons top above =>
          rw [List.length_cons, decide_eq_true (Nat.succ_pos _), Bool.true_and, Nat.add_sub_cancel] at gone
          obtain ⟨segs', some_segs, clear', walk⟩ := later true above gone
          refine ⟨segs', some_segs, clear', fun entry below => ?_⟩
          rw [walkSegments, if_neg skipped, if_neg dot, if_pos ⟨dots, by simp⟩, List.cons_append, List.tail_cons, walk]
      · rw [if_neg dots] at gone
        obtain ⟨segs', some_segs, clear', walk⟩ := later true (part :: above) gone
        refine ⟨segs', some_segs, clear', fun entry below => ?_⟩
        rw [walkSegments, if_neg skipped, if_neg dot, if_neg fun both => dots both.1, ← List.cons_append, walk]

end Frame

section Apart

variable {above other : List Bytes} {k : Nat}

theorem stackText_append (above below : List Bytes) :
    stackText false (above ++ below) = stackText false below ++ stackText false above := by
  simp [stackText]

theorem stackText_replicate (k : Nat) : stackText false (List.replicate k []) = List.replicate k chrSlash := by
  induction k with
  | zero => rfl
  | succ k ih => rw [List.replicate_succ, stackText_cons, ih, List.nil_append, ← List.replicate_succ']

/-- The root with empty entries on it, and the entries above these. -/
def rootStack (above : List Bytes) (k : Nat) : List Bytes := above ++ (List.replicate k [] ++ [[]])

theorem stackText_rootStack (above : List Bytes) (k : Nat) :
    stackText false (rootStack above k) = List.replicate (k + 1) chrSlash ++ stackText false above := by
  have bottom : List.replicate k ([] : Bytes) ++ [[]] = List.replicate (k + 1) [] := List.replicate_succ'.symm
  rw [rootStack, bottom, stackText_append, stackText_replicate]

theorem rootStack_ne_nil (above : List Bytes) (k : Nat) : rootStack above k ≠ [] := by simp [rootStack]

theorem rootStack_empty (k : Nat) : [] :: rootStack [] k = rootStack [] (k + 1) := by
  rw [rootStack, rootStack, List.nil_append, List.nil_append, List.replicate_succ, List.cons_append]

theorem trimmed_length (front : Bytes) : front.length ≤ (trimmed front).length + 1 := by
  rw [trimmed_eq_take, List.length_take]
  split
  · omega
  · omega

theorem walkText_dots {stack : List Bytes} (some_stack : stack ≠ []) :
    walkText (stack, [chrDot, chrDot]) = trimmed (stackText false stack.tail) := by
  rw [walkText, if_neg (by simp), if_pos ⟨rfl, some_stack⟩]

/-- A path that begins with two slashes, or that is at most this long. -/
def DoubledOr (bound : Nat) (path : Bytes) : Prop := path.take 2 = [chrSlash, chrSlash] ∨ path.length ≤ bound

theorem doubledOr_trimmed (above : List Bytes) (k : Nat) :
    DoubledOr (max 1 (stackText false above).length) (trimmed (stackText false (rootStack above k))) := by
  rw [stackText_rootStack, trimmed]
  cases k with
  | zero =>
    right
    rw [List.replicate_succ, List.replicate_zero, List.singleton_append, List.length_cons]
    split
    · rw [List.length_dropLast, List.length_cons]
      omega
    · rw [List.length_cons]
      omega
  | succ k =>
    rw [List.replicate_succ, List.replicate_succ, List.cons_append, List.cons_append]
    generalize List.replicate k chrSlash ++ stackText false above = tail
    cases tail with
    | nil =>
      right
      exact Nat.le_max_left ..
    | cons c tail =>
      left
      rw [if_pos (by simp)]
      rfl

/-- A walk from the root, and the same walk from any other entries: the first is no longer absolute at the end, or
it is not longer than the second but for the root. -/
theorem walkSegments_apart (segs : List Bytes) : ∀ (collapse collapse' : Bool) (above : List Bytes) (k : Nat)
    (other : List Bytes), segs ≠ [] → (∀ part ∈ segs, chrSlash ∉ part) → (collapse = collapse' ∨ above = []) →
      isRooted (walkText (walkSegments collapse (rootStack above k) segs)) = false ∨
        DoubledOr ((walkText (walkSegments collapse' (above ++ other) segs)).length + 1)
          (walkText (walkSegments collapse (rootStack above k) segs)) := by
  induction segs with
  | nil => exact fun _ _ _ _ _ none => absurd rfl none
  | cons part rest ih =>
    intro collapse collapse' above k other _ clear flags
    cases rest with
    | nil =>
      right
      have trim : ∀ above : List Bytes, DoubledOr ((trimmed (stackText false (above ++ other))).length + 1)
          (trimmed (stackText false (rootStack above k))) := by
        intro above
        refine (doubledOr_trimmed above k).imp_right fun short => Nat.le_trans short ?_
        have := trimmed_length (stackText false (above ++ other))
        rw [stackText_append, List.length_append] at this
        rw [stackText_append]
        omega
      rw [walkSegments, walkSegments]
      by_cases dot : part = [chrDot]
      · rw [walkText, walkText, if_pos dot, if_pos dot]
        exact trim above
      by_cases dots : part = [chrDot, chrDot]
      · rw [dots, walkText_dots (rootStack_ne_nil above k)]
        cases above with
        | nil =>
          cases k with
          | zero => exact Or.inr (Nat.zero_le _)
          | succ k =>
            rw [← rootStack_empty, List.tail_cons]
            exact (doubledOr_trimmed [] k).imp_right fun short => Nat.le_trans short (Nat.le_add_left 1 _)
        | cons top above =>
          have some_stack : top :: above ++ other ≠ [] := by simp
          rw [walkText_dots some_stack]
          exact trim above
      · rw [walkText, walkText, if_neg dot, if_neg dot, if_neg fun both => dots both.1, if_neg fun both => dots both.1,
          stackText_rootStack, stackText_append]
        cases k with
        | zero =>
          right
          simp
        | succ k =>
          left
          rw [List.replicate_succ, List.replicate_succ]
          rfl
    | cons next more =>
      have behind : ∀ other ∈ next :: more, chrSlash ∉ other :=
        fun other member => clear other (List.mem_cons_of_mem _ member)
      have later := fun collapse collapse' above k other =>
        ih collapse collapse' above k other (List.cons_ne_nil next more) behind
      have push : ∀ part : Bytes, part :: rootStack above k = rootStack (part :: above) k := fun _ => rfl
      by_cases dot : part = [chrDot]
      · have named : ∀ flag : Bool, ¬ (part = [] ∧ flag = true) := by
          rintro flag ⟨empty, -⟩
          rw [empty] at dot
          cases dot
        rw [walkSegments, walkSegments, if_neg (named _), if_neg (named _), if_pos dot, if_pos dot]
        have some_stack : (rootStack above k).isEmpty = false := by simp [rootStack_ne_nil]
        rw [some_stack]
        refine later _ _ _ _ _ ?_
        cases above with
        | nil => exact Or.inr rfl
        | cons top above => exact Or.inl rfl
      by_cases dots : part = [chrDot, chrDot]
      · have named : ∀ flag : Bool, ¬ (part = [] ∧ flag = true) := by
          rintro flag ⟨empty, -⟩
          rw [empty] at dots
          cases dots
        rw [walkSegments, walkSegments, if_neg (named _), if_neg (named _), if_neg dot, if_neg dot,
          if_pos ⟨dots, rootStack_ne_nil above k⟩]
        cases above with
        | nil =>
          cases k with
          | zero => exact Or.inl (walkSegments_rootless _ _ _ (List.cons_ne_nil _ _) behind .nil fun _ => rfl)
          | succ k =>
            rw [← rootStack_empty, List.tail_cons, List.nil_append]
            split
            · exact later true true [] k other.tail (Or.inl rfl)
            · exact later true true [] k (part :: other) (Or.inl rfl)
        | cons top above =>
          rw [if_pos ⟨dots, by simp⟩]
          exact later true true above k other (Or.inl rfl)
      have single : ∀ p : Prop, ¬ (part = [chrDot, chrDot] ∧ p) := fun _ both => dots both.1
      rw [walkSegments, walkSegments, if_neg dot, if_neg dot, if_neg (single _), if_neg (single _)]
      by_cases skipped : part = [] ∧ collapse = true
      · rw [if_pos skipped]
        by_cases skipped' : part = [] ∧ collapse' = true
        · rw [if_pos skipped']
          exact later true true above k other (Or.inl rfl)
        · rw [if_neg skipped']
          have none_above : above = [] := flags.resolve_left fun same => skipped' (same ▸ skipped)
          subst none_above
          exact later true true [] k (part :: other) (Or.inl rfl)
      · rw [if_neg skipped]
        by_cases skipped' : part = [] ∧ collapse' = true
        · have none_above : above = [] := flags.resolve_left fun same => skipped (same ▸ skipped')
          subst none_above
          rw [if_pos skipped', skipped'.1, rootStack_empty]
          exact later true true [] (k + 1) other (Or.inl rfl)
        · rw [if_neg skipped', push, ← List.cons_append]
          exact later true true (part :: above) k other (Or.inl rfl)

end Apart

section Entry

variable {part rest last : Bytes} {left : List Bytes}

theorem stackText_entry (left : List Bytes) (part : Bytes) :
    stackText false (left ++ [part, []]) = chrSlash :: part ++ stackText false (left ++ [[]]) := by
  rw [stackText_append, stackText_append]
  simp [stackText]

theorem trimmed_entry (some_left : left ≠ []) (part : Bytes) :
    trimmed (stackText false (left ++ [part, []])) = chrSlash :: part ++ trimmed (stackText false (left ++ [[]])) := by
  have some_text : stackText false left ≠ [] := fun none => some_left (stackText_eq_nil.mp none)
  have long := List.length_pos_iff.mpr some_text
  have bottom : stackText false (left ++ [[]]) = chrSlash :: stackText false left := stackText_concat
  rw [stackText_entry, bottom, trimmed, trimmed, if_pos (by simp), if_pos (by simpa using long),
    List.dropLast_append_of_ne_nil (List.cons_ne_nil _ _)]

/-- The path that an entry and what is above it leave. -/
theorem walkText_entry (part : Bytes) (kept : last = [chrDot, chrDot] → left ≠ []) :
    ((last = [chrDot] → left ≠ []) ∧ (last = [chrDot, chrDot] → left.tail ≠ []) →
      walkText (left ++ [part, []], last) = chrSlash :: part ++ walkText (left ++ [[]], last)) ∧
    (¬ ((last = [chrDot] → left ≠ []) ∧ (last = [chrDot, chrDot] → left.tail ≠ [])) →
      walkText (left ++ [part, []], last) = chrSlash :: part ∧ walkText (left ++ [[]], last) = [chrSlash]) := by
  have alone : trimmed (stackText false [part, []]) = chrSlash :: part ∧ trimmed (stackText false [[]]) = [chrSlash] := by
    have text : stackText false [part, []] = (chrSlash :: part) ++ [chrSlash] := by simp [stackText]
    rw [text, trimmed, if_pos (by simp), List.dropLast_concat]
    exact ⟨rfl, rfl⟩
  by_cases dot : last = [chrDot]
  · have front : ∀ stack, walkText (stack, last) = trimmed (stackText false stack) := fun stack => if_pos dot
    have single : last ≠ [chrDot, chrDot] := by
      rw [dot]
      decide
    rw [front, front]
    refine ⟨fun enough => trimmed_entry (enough.1 dot) part, fun short => ?_⟩
    have none_left : left = [] := by
      by_contra some_left
      exact short ⟨fun _ => some_left, fun same => absurd same single⟩
    rw [none_left]
    exact alone
  by_cases dots : last = [chrDot, chrDot]
  · subst dots
    cases left with
    | nil => exact absurd rfl (kept rfl)
    | cons top left =>
      have front : ∀ entries : List Bytes, walkText (top :: left ++ entries, [chrDot, chrDot]) =
          trimmed (stackText false (left ++ entries)) := fun entries => walkText_dots (by simp)
      rw [front, front, List.tail_cons]
      refine ⟨fun enough => trimmed_entry (enough.2 rfl) part, fun short => ?_⟩
      have none_left : left = [] := by
        by_contra some_left
        exact short ⟨fun same => absurd same dot, fun _ => some_left⟩
      rw [none_left]
      exact alone
  · have whole : ∀ stack, walkText (stack, last) = stackText false stack ++ last := fun stack => by
      rw [walkText, if_neg dot, if_neg fun both => dots both.1]
    rw [whole, whole, stackText_entry, List.append_assoc]
    exact ⟨fun _ => rfl, fun short => absurd ⟨fun same => absurd same dot, fun same => absurd same dots⟩ short⟩

theorem canonicalizePathname_root (proper : (0 : UInt8) ∉ rest) :
    canonicalizePathname (chrSlash :: rest) = walkText (walkSegments true [[]] (segments rest)) := by
  have proper' : (0 : UInt8) ∉ chrSlash :: rest := by simpa using proper
  obtain ⟨next, more, shape⟩ := List.exists_cons_of_ne_nil (segments_ne_nil rest)
  rw [canonicalizePathname_walk proper', segments_slash, shape]
  rfl

/-- The first entry of an absolute path is in front of what is left of the rest, where it stays. Where it does not
stay, what is left is too short. -/
theorem canonicalizePathname_entry (clear : chrSlash ∉ part) (nonempty : part ≠ []) (proper : (0 : UInt8) ∉ part)
    (proper' : (0 : UInt8) ∉ rest) :
    (IsName part ∧ stays 1 true 0 (segments rest) = true ∧
      canonicalizePathname (chrSlash :: (part ++ chrSlash :: rest)) =
        chrSlash :: part ++ canonicalizePathname (chrSlash :: rest)) ∨
    (IsName part ∧ stays 0 true 0 (segments rest) = true ∧ stays 1 true 0 (segments rest) = false ∧
      canonicalizePathname (chrSlash :: (part ++ chrSlash :: rest)) = chrSlash :: part ∧
        canonicalizePathname (chrSlash :: rest) = [chrSlash]) ∨
    (¬ (IsName part ∧ stays 0 true 0 (segments rest) = true) ∧
      (isRooted (canonicalizePathname (chrSlash :: (part ++ chrSlash :: rest))) = false ∨
        DoubledOr ((canonicalizePathname (chrSlash :: rest)).length + 1)
          (canonicalizePathname (chrSlash :: (part ++ chrSlash :: rest))))) := by
  have proper_whole : (0 : UInt8) ∉ part ++ chrSlash :: rest := by simp [proper, proper']
  have clear_rest := segments_clear rest.length (Nat.le_refl rest.length)
  obtain ⟨next, more, shape⟩ := List.exists_cons_of_ne_nil (segments_ne_nil rest)
  have named : ¬ (part = [] ∧ true = true) := fun both => nonempty both.1
  rw [canonicalizePathname_root proper_whole, canonicalizePathname_root proper', segments_cons clear, shape, walkSegments,
    if_neg named, ← shape]
  by_cases dot : part = [chrDot]
  · refine Or.inr (Or.inr ⟨fun both => both.1.dot dot, ?_⟩)
    rw [if_pos dot]
    exact walkSegments_apart (segments rest) false true [] 0 [[]] (segments_ne_nil rest) clear_rest (Or.inr rfl)
  rw [if_neg dot]
  by_cases dots : part = [chrDot, chrDot]
  · refine Or.inr (Or.inr ⟨fun both => both.1.dots dots, Or.inl ?_⟩)
    rw [if_pos ⟨dots, List.cons_ne_nil _ _⟩]
    exact walkSegments_rootless _ _ _ (segments_ne_nil rest) clear_rest .nil fun _ => rfl
  have name : IsName part := ⟨nonempty, dot, dots⟩
  rw [if_neg fun both => dots both.1]
  by_cases kept : stays 0 true 0 (segments rest) = true
  · obtain ⟨left, last, walk, some_left, slack⟩ := walkSegments_above (segments rest) true [] (segments_ne_nil rest) kept
    have entry := walk [part, []] (List.cons_ne_nil _ _)
    have root := walk [[]] (List.cons_ne_nil _ _)
    rw [List.nil_append] at entry root
    rw [List.length_nil] at slack
    rw [entry, root]
    by_cases enough : stays 1 true 0 (segments rest) = true
    · exact Or.inl ⟨name, enough, (walkText_entry part some_left).1 (slack.mp enough)⟩
    · exact Or.inr (Or.inl ⟨name, kept, Bool.eq_false_iff.mpr enough,
        (walkText_entry part some_left).2 fun both => enough (slack.mpr both)⟩)
  · refine Or.inr (Or.inr ⟨fun both => kept both.2, ?_⟩)
    obtain ⟨segs', some_segs, clear', walk⟩ :=
      walkSegments_popped (segments rest) true [] (segments_ne_nil rest) clear_rest (Bool.eq_false_iff.mpr kept)
    have entry := walk part [[]]
    have root := walk [] []
    rw [List.nil_append] at entry root
    rw [entry, root]
    exact walkSegments_apart segs' true true [] 0 [] some_segs clear' (Or.inl rfl)

theorem canonicalizePathname_alone (clear : chrSlash ∉ part) (proper : (0 : UInt8) ∉ part) :
    (part ≠ [chrDot] → part ≠ [chrDot, chrDot] → canonicalizePathname (chrSlash :: part) = chrSlash :: part) ∧
      (part = [chrDot] ∨ part = [chrDot, chrDot] → (canonicalizePathname (chrSlash :: part)).length ≤ 1) := by
  rw [canonicalizePathname_root proper, segments_of_no_slash clear, walkSegments, walkText]
  dsimp only
  constructor
  · intro dot dots
    rw [if_neg dot, if_neg fun both => dots both.1]
    rfl
  · rintro (rfl | rfl)
    · decide
    · decide

end Entry

end GnomeVfs
