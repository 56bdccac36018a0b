import GnomeVfs.CanonicalizeNormal

/- What `_gnome_vfs_canonicalize_pathname` makes of any path: a walk over its segments with a stack of
entries. The empty segment in front of a slash at the start is an entry like the others. -/
namespace GnomeVfs

section Walk

/-- The entries in front of the last segment, the topmost first, and the last segment. With `collapse` the
slashes in front have been left out. Behind a `.` that follows an entry they are not, so an empty
segment becomes an entry there. A `..` takes away the topmost entry, whatever it is. -/
def walkSegments : Bool → List Bytes → List Bytes → List Bytes × Bytes
  | _, stack, [] => (stack, [])
  | _, stack, [last] => (stack, last)
  | collapse, stack, part :: next :: more =>
    if part = [] ∧ collapse then walkSegments true stack (next :: more)
    else if part = [chrDot] then walkSegments stack.isEmpty stack (next :: more)
    else if part = [chrDot, chrDot] ∧ stack ≠ [] then walkSegments true stack.tail (next :: more)
    else walkSegments true (part :: stack) (next :: more)

/-- The text without the slash at its end, where that is not all of it. -/
def trimmed (front : Bytes) : Bytes := if 1 < front.length then front.dropLast else front

/-- The path that is left at the end of a walk. -/
def walkText (walked : List Bytes × Bytes) : Bytes :=
  if walked.2 = [chrDot] then trimmed (stackText false walked.1)
  else if walked.2 = [chrDot, chrDot] ∧ walked.1 ≠ [] then trimmed (stackText false walked.1.tail)
  else stackText false walked.1 ++ walked.2

variable {stack below : List Bytes} {part tail : Bytes}

theorem stackText_eq_nil : stackText false stack = [] ↔ stack = [] := by
  cases stack with
  | nil => exact ⟨fun _ => rfl, fun _ => rfl⟩
  | cons part stack =>
    rw [stackText_cons]
    simp

theorem trimmed_eq_take (front : Bytes) :
    trimmed front = front.take (if 1 < front.length then front.length - 1 else front.length) := by
  rw [trimmed]
  by_cases long : 1 < front.length
  · rw [if_pos long, if_pos long, List.dropLast_eq_take]
  · rw [if_neg long, if_neg long, List.take_length]

theorem canonicalizeStep_dot_last {front : Bytes} (ends : front = [] ∨ front.getLast? = some chrSlash) :
    canonicalizeStep (front ++ [chrDot]) front.length = .done (trimmed front) := by
  have first : byteAt (front ++ [chrDot]) front.length = chrDot := byteAt_append front [chrDot] 0
  have second : byteAt (front ++ [chrDot]) (front.length + 1) = 0 := byteAt_append front [chrDot] 1
  rw [canonicalizeStep, first, second, if_neg (by decide), if_pos rfl, if_pos rfl, trimmed_eq_take]
  by_cases long : 1 < front.length
  · have some_front : front ≠ [] := by
      rintro rfl
      exact absurd long (by decide)
    have last := ends.resolve_left some_front
    have slash : byteAt (front ++ [chrDot]) (front.length - 1) = chrSlash := by
      rw [byteAt, List.getD_eq_getElem?_getD, getElem?_front _ (by omega), ← List.getLast?_eq_getElem?, last]
      rfl
    rw [if_pos ⟨long, slash⟩, if_pos long, List.take_append_of_le_length (by omega)]
  · rw [if_neg fun both => long both.1, if_neg long, List.take_left, List.take_length]

/-- With the first segment in sight, slashes that have been left out make no difference. -/
theorem walkSegments_flag (collapse : Bool) (stack : List Bytes) (more : List Bytes) (some_part : part ≠ []) :
    walkSegments collapse stack (part :: more) = walkSegments false stack (part :: more) := by
  cases more with
  | nil => rfl
  | cons next more =>
    have first : ∀ flag : Bool, ¬ (part = [] ∧ flag = true) := fun flag both => some_part both.1
    rw [walkSegments, walkSegments, if_neg (first collapse), if_neg (first false)]

theorem walkSegments_cutRun (stack : List Bytes) (tail : Bytes) :
    walkSegments false stack (segments (cutRun tail)) = walkSegments true stack (segments tail) := by
  induction tail with
  | nil => rfl
  | cons c rest ih =>
    by_cases slash : c = chrSlash
    · have first : segments (chrSlash :: rest) = [] :: segments rest := @segments_cons [] (by simp) rest
      have cut : cutRun (chrSlash :: rest) = cutRun rest := rfl
      obtain ⟨next, more, shape⟩ := List.exists_cons_of_ne_nil (segments_ne_nil rest)
      rw [slash, first, cut, ih, shape, walkSegments, if_pos ⟨rfl, rfl⟩]
    · rw [cutRun_of_head (by simpa using slash)]
      rcases path_cases (c :: rest) with clear | ⟨part, tail, split, clear⟩
      · rw [segments_of_no_slash clear]
        rfl
      · have some_part : part ≠ [] := by
          rintro rfl
          exact slash (List.cons.inj split).1
        rw [split, segments_cons clear, walkSegments_flag true stack _ some_part]

theorem walkSegments_part (stack : List Bytes) (clear : chrSlash ∉ part) (tail : Bytes) :
    walkSegments false stack (segments (part ++ chrSlash :: tail)) =
      if part = [chrDot] then walkSegments stack.isEmpty stack (segments tail)
      else if part = [chrDot, chrDot] ∧ stack ≠ [] then walkSegments true stack.tail (segments tail)
      else walkSegments true (part :: stack) (segments tail) := by
  obtain ⟨next, more, shape⟩ := List.exists_cons_of_ne_nil (segments_ne_nil tail)
  rw [segments_cons clear, shape, walkSegments, if_neg fun both => Bool.false_ne_true both.2]

/-- The loop behind the entries of a stack. The induction is on the text that is left. -/
theorem canonicalizes_walk (size : Nat) : ∀ {suffix : Bytes} {stack : List Bytes}, suffix.length ≤ size →
    (0 : UInt8) ∉ suffix → (∀ part ∈ stack, chrSlash ∉ part) →
    Canonicalizes (stackText false stack ++ suffix) (stackText false stack).length
      (walkText (walkSegments false stack (segments suffix))) := by
  induction size with
  | zero =>
    intro suffix stack small proper clean
    have empty : suffix = [] := List.length_eq_zero_iff.mp (by omega)
    have text : walkText (walkSegments false stack (segments [])) = stackText false stack := List.append_nil _
    rw [empty, List.append_nil, text]
    exact canonicalizes_end _
  | succ size ih =>
    intro suffix stack small proper clean
    rcases path_cases suffix with clear | ⟨part, tail, rfl, clear⟩
    · have bytes : ∀ c ∈ suffix, c ≠ 0 ∧ c ≠ chrSlash := fun c member =>
        ⟨fun same => proper (same ▸ member), fun same => clear (same ▸ member)⟩
      rw [segments_of_no_slash clear, walkSegments, walkText]
      by_cases dot : suffix = [chrDot]
      · rw [if_pos dot, dot]
        exact .done (canonicalizeStep_dot_last stackText_ends)
      rw [if_neg dot]
      by_cases dots : suffix = [chrDot, chrDot]
      · rw [dots]
        cases stack with
        | nil => exact .next rfl (canonicalizes_end [chrDot, chrDot])
        | cons top below =>
          rw [if_pos ⟨rfl, List.cons_ne_nil _ _⟩, List.tail_cons]
          have step := @canonicalizeStep_dots_part false below top (clean top List.mem_cons_self) [] (Or.inl rfl)
          simp only [true_and, List.tail_nil, cutRun, List.dropWhile_nil, List.append_nil] at step
          rw [← trimmed_eq_take] at step
          have length : (trimmed (stackText false below)).length =
              if 1 < (stackText false below).length then (stackText false below).length - 1
                else (stackText false below).length := by
            rw [trimmed_eq_take, List.length_take]
            split
            · omega
            · omega
          rw [← length] at step
          exact .next step (canonicalizes_end _)
      · rw [if_neg fun both => dots both.1]
        exact .done (canonicalizeStep_last bytes dot dots)
    · have bytes : ∀ c ∈ part, c ≠ 0 ∧ c ≠ chrSlash := fun c member =>
        ⟨fun same => proper (by simp [← same, member]), fun same => clear (same ▸ member)⟩
      have length : tail.length ≤ size := by
        rw [List.length_append, List.length_cons] at small
        omega
      have shorter : (cutRun tail).length ≤ size :=
        Nat.le_trans (List.dropWhile_suffix (· == chrSlash) (l := tail)).length_le length
      have later : (0 : UInt8) ∉ tail := fun member => proper (by simp [member])
      have cut_later : (0 : UInt8) ∉ cutRun tail := fun member =>
        later ((List.dropWhile_suffix _).mem member)
      rw [walkSegments_part stack clear]
      by_cases dot : part = [chrDot]
      · rw [if_pos dot, dot]
        refine .next (canonicalizeStep_dot_slash _ tail) ?_
        cases stack with
        | nil =>
          have whole := ih shorter cut_later clean
          rw [walkSegments_cutRun] at whole
          exact whole
        | cons top below =>
          rw [if_neg (fun none => absurd (stackText_eq_nil.mp none) (List.cons_ne_nil _ _))]
          exact ih length later clean
      rw [if_neg dot]
      by_cases dots : part = [chrDot, chrDot] ∧ stack ≠ []
      · rw [if_pos dots, dots.1]
        obtain ⟨top, below, rfl⟩ := List.exists_cons_of_ne_nil dots.2
        have step := @canonicalizeStep_dots_part false below top (clean top List.mem_cons_self)
          (chrSlash :: tail) (Or.inr ⟨tail, rfl⟩)
        simp only [List.cons_ne_nil, false_and, if_false, List.tail_cons, List.take_length] at step
        rw [List.tail_cons, ← walkSegments_cutRun]
        exact .next step (ih shorter cut_later fun other member => clean other (List.mem_cons_of_mem _ member))
      · rw [if_neg dots]
        have bottom : part = [chrDot, chrDot] → stackText false stack = [] := by
          intro parent
          by_contra inner
          exact dots ⟨parent, fun none => inner (stackText_eq_nil.mpr none)⟩
        have step := @canonicalizeStep_part (stackText false stack) part tail bytes dot bottom
        have leads := @ih (cutRun tail) (part :: stack) shorter cut_later fun other member => by
          rcases List.mem_cons.mp member with rfl | inside
          · exact clear
          · exact clean other inside
        rw [walkSegments_cutRun, stackText_cons, List.append_assoc, List.append_assoc,
          List.singleton_append] at leads
        exact .next step leads

/-- `gnome_vfs_make_path_name_canonical` as a walk over the segments of the path. -/
theorem canonicalizePathname_walk {path : Bytes} (proper : (0 : UInt8) ∉ path) :
    canonicalizePathname path = walkText (walkSegments false [] (segments path)) :=
  (@canonicalizes_walk path.length path [] (Nat.le_refl _) proper (by simp)).loop (Nat.lt_succ_self _)

example : walkSegments false [] (segments (ascii "/a/.//b/../..")) =
    ([[], ascii "a", []], ascii "..") := by decide

end Walk

section Stays

/-- Whether an entry with `above` entries on top of it is still there at the end: every `..` takes one away.
`slack` more are needed where a `.` or a `..` ends the path. -/
def stays (slack : Nat) : Bool → Nat → List Bytes → Bool
  | _, _, [] => true
  | _, above, [last] =>
    (last ≠ [chrDot] || decide (slack ≤ above)) && (last ≠ [chrDot, chrDot] || decide (slack < above))
  | collapse, above, part :: next :: more =>
    if part = [] ∧ collapse then stays slack true above (next :: more)
    else if part = [chrDot] then stays slack false above (next :: more)
    else if part = [chrDot, chrDot] then decide (0 < above) && stays slack true (above - 1) (next :: more)
    else stays slack true (above + 1) (next :: more)

/-- Whether an empty segment that stands directly behind a `.`, with `entries` entries in front of it, is still
there at the end. -/
def keepsRun : Bool → Nat → List Bytes → Bool
  | _, _, [] => false
  | _, _, [_] => false
  | collapse, entries, part :: next :: more =>
    if part = [] ∧ collapse then keepsRun true entries (next :: more)
    else if part = [chrDot] then keepsRun (entries == 0) entries (next :: more)
    else if part = [chrDot, chrDot] ∧ entries ≠ 0 then keepsRun true (entries - 1) (next :: more)
    else (part = [] && decide (0 < entries) && stays 1 true 0 (next :: more)) ||
      keepsRun true (entries + 1) (next :: more)

/-- The entries that the last segment leaves in front of the last slash of the path. -/
def walkRest (walked : List Bytes × Bytes) : List Bytes :=
  walked.1.drop (if walked.2 = [chrDot] then 1 else if walked.2 = [chrDot, chrDot] then 2 else 0)

variable {stack above below : List Bytes} {part : Bytes}

/-- An empty entry with entries below it that is still there at the end. -/
def RunStays (collapse : Bool) (stack segs : List Bytes) : Prop :=
  ∃ above below, stack = above ++ [] :: below ∧ below ≠ [] ∧ stays 1 collapse above.length segs = true

theorem mem_drop_dropLast_iff {k : Nat} :
    [] ∈ (stack.drop k).dropLast ↔ ∃ above below, stack = above ++ [] :: below ∧ below ≠ [] ∧ k ≤ above.length := by
  constructor
  · intro member
    obtain ⟨front, back, split⟩ := List.append_of_mem member
    have some_drop : stack.drop k ≠ [] := by
      intro none
      rw [none] at member
      cases member
    have whole := List.dropLast_append_getLast some_drop
    rw [split] at whole
    refine ⟨stack.take k ++ front, back ++ [(stack.drop k).getLast some_drop], ?_, by simp, ?_⟩
    · conv_lhs => rw [← List.take_append_drop k stack, ← whole]
      simp
    · have long : k ≤ stack.length := by
        by_contra short
        exact some_drop (List.drop_eq_nil_of_le (by omega))
      rw [List.length_append, List.length_take, Nat.min_eq_left long]
      exact Nat.le_add_right _ _
  · rintro ⟨above, below, rfl, some_below, enough⟩
    rw [List.drop_append_of_le_length enough, List.dropLast_append_of_ne_nil (List.cons_ne_nil _ _),
      List.dropLast_cons_of_ne_nil some_below]
    exact List.mem_append_right _ (List.mem_cons_self ..)

theorem not_runStays_nil (collapse : Bool) (segs : List Bytes) : ¬ RunStays collapse [] segs := by
  rintro ⟨above, below, split, -, -⟩
  cases above with
  | nil => cases split
  | cons part above => cases split

theorem runStays_cons {collapse : Bool} {top : Bytes} {segs : List Bytes} :
    RunStays collapse (top :: stack) segs ↔ (top = [] ∧ stack ≠ [] ∧ stays 1 collapse 0 segs = true) ∨
      ∃ above below, stack = above ++ [] :: below ∧ below ≠ [] ∧ stays 1 collapse (above.length + 1) segs = true := by
  constructor
  · rintro ⟨above, below, split, some_below, left⟩
    cases above with
    | nil =>
      obtain ⟨rfl, rfl⟩ := List.cons.inj split
      exact Or.inl ⟨rfl, some_below, left⟩
    | cons part above =>
      obtain ⟨rfl, rfl⟩ := List.cons.inj split
      exact Or.inr ⟨above, below, rfl, some_below, left⟩
  · rintro (⟨rfl, some_stack, left⟩ | ⟨above, below, rfl, some_below, left⟩)
    · exact ⟨[], stack, rfl, some_stack, left⟩
    · exact ⟨top :: above, below, rfl, some_below, left⟩

/-- The runs that are left are those that were in the stack and stay, and those that are still to come. -/
theorem walkRest_runs (segs : List Bytes) : ∀ (collapse : Bool) (stack : List Bytes), segs ≠ [] →
    ([] ∈ (walkRest (walkSegments collapse stack segs)).dropLast ↔
      RunStays collapse stack segs ∨ keepsRun collapse stack.length segs = true) := by
  induction segs with
  | nil => exact fun _ _ none => absurd rfl none
  | cons part rest ih =>
    intro collapse stack _
    cases rest with
    | nil =>
      rw [walkSegments, walkRest, mem_drop_dropLast_iff, keepsRun]
      simp only [Bool.false_eq_true, or_false, RunStays, stays]
      refine exists_congr fun above => exists_congr fun below => and_congr_right fun _ => and_congr_right fun _ => ?_
      by_cases dot : part = [chrDot]
      · simp [dot]
      · by_cases dots : part = [chrDot, chrDot]
        · simp [dots]
          omega
        · simp [dot, dots]
    | cons next more =>
      have later := fun collapse stack => ih collapse stack (List.cons_ne_nil next more)
      by_cases skipped : part = [] ∧ collapse = true
      · rw [walkSegments, if_pos skipped, later, keepsRun, if_pos skipped]
        simp only [RunStays, stays, if_pos skipped]
      by_cases dot : part = [chrDot]
      · rw [walkSegments, if_neg skipped, if_pos dot, later, keepsRun, if_neg skipped, if_pos dot]
        cases stack with
        | nil =>
          rw [or_iff_right (not_runStays_nil _ _), or_iff_right (not_runStays_nil _ _)]
          rfl
        | cons top below =>
          simp only [RunStays, stays, if_neg skipped, if_pos dot]
          rfl
      by_cases dots : part = [chrDot, chrDot]
      · cases stack with
        | nil =>
          have alone : ¬ (part = [chrDot, chrDot] ∧ ([] : List Bytes) ≠ []) := fun both => both.2 rfl
          have none_there : ¬ (part = [chrDot, chrDot] ∧ ([] : List Bytes).length ≠ 0) := fun both => both.2 rfl
          have named : part ≠ [] := by
            rintro rfl
            cases dots
          have pushed : ¬ RunStays true [part] (next :: more) := by
            rw [runStays_cons]
            rintro (⟨-, none, -⟩ | ⟨above, below, split, -⟩)
            · exact none rfl
            · simp at split
          rw [walkSegments, if_neg skipped, if_neg dot, if_neg alone, later, keepsRun, if_neg skipped, if_neg dot,
            if_neg none_there, or_iff_right pushed, or_iff_right (not_runStays_nil _ _)]
          simp [named]
        | cons top below =>
          have popped : RunStays collapse (top :: below) (part :: next :: more) ↔
              RunStays true below (next :: more) := by
            rw [runStays_cons]
            simp only [stays, if_neg skipped, if_neg dot, if_pos dots]
            simp [RunStays]
          have both : part = [chrDot, chrDot] ∧ top :: below ≠ [] := ⟨dots, List.cons_ne_nil _ _⟩
          have counted : part = [chrDot, chrDot] ∧ (top :: below).length ≠ 0 := ⟨dots, Nat.succ_ne_zero _⟩
          rw [walkSegments, if_neg skipped, if_neg dot, if_pos both, later, keepsRun, if_neg skipped, if_neg dot,
            if_pos counted, popped, List.tail_cons, List.length_cons, Nat.add_sub_cancel]
      · have other : ∀ p : Prop, ¬ (part = [chrDot, chrDot] ∧ p) := fun _ both => dots both.1
        have pushed : RunStays true (part :: stack) (next :: more) ↔
            (part = [] ∧ stack ≠ [] ∧ stays 1 true 0 (next :: more) = true) ∨
              RunStays collapse stack (part :: next :: more) := by
          rw [runStays_cons]
          simp only [RunStays, stays, if_neg skipped, if_neg dot, if_neg dots]
        have height : stack ≠ [] ↔ 0 < stack.length := List.length_pos_iff.symm
        rw [walkSegments, if_neg skipped, if_neg dot, if_neg (other _), later, keepsRun, if_neg skipped, if_neg dot,
          if_neg (other _), pushed, List.length_cons, height]
        simp only [Bool.or_eq_true, Bool.and_eq_true, decide_eq_true_eq, and_assoc]
        tauto

end Stays

section Settled

variable {stack below : List Bytes} {part last : Bytes}

/-- What the entries of a walk look like. -/
structure Entries (stack : List Bytes) : Prop where
  clear : ∀ part ∈ stack, chrSlash ∉ part
  dot : [chrDot] ∉ stack
  dots : [chrDot, chrDot] ∉ stack.dropLast

theorem Entries.tail (entries : Entries stack) : Entries stack.tail := by
  refine ⟨fun part member => entries.clear part (List.mem_of_mem_tail member),
    fun member => entries.dot (List.mem_of_mem_tail member), fun member => entries.dots ?_⟩
  rw [← List.tail_dropLast] at member
  exact List.mem_of_mem_tail member

theorem Entries.push (entries : Entries stack) (clear : chrSlash ∉ part) (dot : part ≠ [chrDot])
    (dots : part = [chrDot, chrDot] → stack = []) : Entries (part :: stack) := by
  constructor
  · intro other member
    rcases List.mem_cons.mp member with rfl | inside
    · exact clear
    · exact entries.clear other inside
  · intro member
    rcases List.mem_cons.mp member with same | inside
    · exact dot same.symm
    · exact entries.dot inside
  · cases stack with
    | nil => exact List.not_mem_nil
    | cons top below =>
      rw [List.dropLast_cons_of_ne_nil (List.cons_ne_nil _ _)]
      intro member
      rcases List.mem_cons.mp member with same | inside
      · cases dots same.symm
      · exact entries.dots inside

theorem walkSegments_entries (segs : List Bytes) : ∀ (collapse : Bool) (stack : List Bytes), Entries stack →
    (∀ part ∈ segs, chrSlash ∉ part) →
      Entries (walkSegments collapse stack segs).1 ∧ chrSlash ∉ (walkSegments collapse stack segs).2 := by
  induction segs with
  | nil => exact fun _ _ entries _ => ⟨entries, List.not_mem_nil⟩
  | cons part rest ih =>
    intro collapse stack entries clear
    cases rest with
    | nil => exact ⟨entries, clear part (List.mem_cons_self ..)⟩
    | cons next more =>
      have later := fun collapse stack entries =>
        ih collapse stack entries fun other member => clear other (List.mem_cons_of_mem _ member)
      rw [walkSegments]
      split
      case isTrue => exact later _ _ entries
      case isFalse =>
        split
        case isTrue => exact later _ _ entries
        case isFalse dot =>
          split
          case isTrue => exact later _ _ entries.tail
          case isFalse dots =>
            refine later _ _ (entries.push (clear part (List.mem_cons_self ..)) dot fun parent => ?_)
            by_contra some_stack
            exact dots ⟨parent, some_stack⟩

theorem segments_clear (size : Nat) : ∀ {path : Bytes}, path.length ≤ size → ∀ part ∈ segments path, chrSlash ∉ part := by
  induction size with
  | zero =>
    intro path small part member
    rw [List.length_eq_zero_iff.mp (Nat.le_zero.mp small)] at member
    cases List.mem_singleton.mp member
    exact List.not_mem_nil
  | succ size ih =>
    intro path small part member
    rcases path_cases path with clear | ⟨first, tail, rfl, clear⟩
    · rw [segments_of_no_slash clear, List.mem_singleton] at member
      rwa [member]
    · rw [segments_cons clear] at member
      rcases List.mem_cons.mp member with rfl | inside
      · exact clear
      · rw [List.length_append, List.length_cons] at small
        exact ih (by omega) part inside

theorem Entries.settled_last (entries : Entries stack) (clear : chrSlash ∉ last) (dot : last ≠ [chrDot])
    (dots : last = [chrDot, chrDot] → stack = []) :
    Settled (stackText false stack ++ last) ↔ [] ∉ stack.dropLast := by
  have parts : segments (stackText false stack ++ last) = stack.reverse ++ [last] := by
    rw [segments_stackText entries.clear, segments_of_no_slash clear]
    rfl
  have no_dot : [chrDot] ∉ stack.reverse ++ [last] := by
    rw [List.mem_append, List.mem_reverse, List.mem_singleton, not_or]
    exact ⟨entries.dot, Ne.symm dot⟩
  rw [Settled, parts]
  by_cases empty : stack = []
  · subst empty
    simp [Ne.symm dot]
  · have some_reverse : stack.reverse ≠ [] := by simpa using empty
    have behind : (stack.reverse ++ [last]).tail = stack.dropLast.reverse ++ [last] := by
      rw [List.tail_append_of_ne_nil some_reverse, List.tail_reverse]
    have no_dots : [chrDot, chrDot] ∉ stack.dropLast.reverse ++ [last] := by
      rw [List.mem_append, List.mem_reverse, List.mem_singleton, not_or]
      exact ⟨entries.dots, fun same => empty (dots same.symm)⟩
    rw [behind, List.dropLast_concat, List.mem_reverse]
    exact ⟨fun settled => settled.2.2, fun runless => ⟨no_dot, no_dots, runless⟩⟩

/-- Entries without the slash behind them. The topmost one may then be empty. -/
theorem Entries.settled_trimmed (entries : Entries stack) :
    Settled (trimmed (stackText false stack)) ↔ [] ∉ stack.tail.dropLast := by
  cases stack with
  | nil => decide
  | cons top below =>
    have text : stackText false (top :: below) = (stackText false below ++ top) ++ [chrSlash] := by
      rw [stackText_cons, List.append_assoc]
    by_cases short : stackText false below ++ top = []
    · obtain ⟨none_below, rfl⟩ := List.append_eq_nil_iff.mp short
      rw [stackText_eq_nil.mp none_below]
      decide
    · have long : 1 < (stackText false (top :: below)).length := by
        have := List.length_pos_iff.mpr short
        rw [text, List.length_append, List.length_singleton]
        omega
      rw [trimmed, if_pos long, text, List.dropLast_concat, List.tail_cons]
      refine entries.tail.settled_last (entries.clear top (List.mem_cons_self ..)) ?_ ?_
      · rintro rfl
        exact entries.dot (List.mem_cons_self ..)
      · rintro rfl
        by_contra some_below
        have some_below : below ≠ [] := some_below
        apply entries.dots
        rw [List.dropLast_cons_of_ne_nil some_below]
        exact List.mem_cons_self ..

theorem settled_walkText (entries : Entries stack) (clear : chrSlash ∉ last) :
    Settled (walkText (stack, last)) ↔ [] ∉ (walkRest (stack, last)).dropLast := by
  rw [walkText, walkRest]
  dsimp only
  by_cases dot : last = [chrDot]
  · rw [if_pos dot, if_pos dot, List.drop_one]
    exact entries.settled_trimmed
  rw [if_neg dot, if_neg dot]
  by_cases dots : last = [chrDot, chrDot]
  · cases stack with
    | nil =>
      rw [if_neg fun both => both.2 rfl, if_pos dots, dots]
      decide
    | cons top below =>
      rw [if_pos ⟨dots, List.cons_ne_nil _ _⟩, if_pos dots, entries.tail.settled_trimmed, List.tail_cons,
        List.drop_succ_cons, List.drop_one]
  · rw [if_neg dots, if_neg fun both => dots both.1, List.drop_zero]
    exact entries.settled_last clear dot fun parent => absurd parent dots

/-- The canonical path is canonical, so that a second pass changes nothing, exactly when the walk leaves
no empty segment behind. -/
theorem makePathNameCanonical_again_iff {p : Bytes} (proper : (0 : UInt8) ∉ p) :
    ∃ result, makePathNameCanonical p = some result ∧
      (makePathNameCanonical result = some result ↔ keepsRun false 0 (segments p) = false) ∧
      (Settled result ↔ keepsRun false 0 (segments p) = false) := by
  have start : Entries [] := ⟨by simp, by simp, by simp⟩
  obtain ⟨entries, clear⟩ := walkSegments_entries (segments p) false [] start (segments_clear p.length (Nat.le_refl _))
  have runs := walkRest_runs (segments p) false [] (segments_ne_nil p)
  rw [or_iff_right (not_runStays_nil _ _), List.length_nil] at runs
  have settled : Settled (canonicalizePathname p) ↔ keepsRun false 0 (segments p) = false := by
    rw [canonicalizePathname_walk proper, ← Bool.not_eq_true, ← runs]
    exact settled_walkText entries clear
  have again_proper : (0 : UInt8) ∉ canonicalizePathname p := fun member =>
    proper ((canonicalizePathname_sublist p).subset member)
  refine ⟨canonicalizePathname p, makePathNameCanonical_eq p, ?_, settled⟩
  rw [makePathNameCanonical_eq, Option.some.injEq, canonicalizePathname_eq_self again_proper]
  exact settled

theorem makePathNameCanonical_again_dots : ∃ result, makePathNameCanonical (ascii "/a/.//b/../..") = some result ∧
    (makePathNameCanonical result = some result ↔ keepsRun false 0 (segments (ascii "/a/.//b/../..")) = false) ∧
    (Settled result ↔ keepsRun false 0 (segments (ascii "/a/.//b/../..")) = false) :=
  makePathNameCanonical_again_iff (by decide)

/-- The slashes behind `/./` are not collapsed, and the second pass finds them. -/
theorem makePathNameCanonical_twice :
    makePathNameCanonical (ascii "/.//b") = some (ascii "//b") ∧ makePathNameCanonical (ascii "//b") = some (ascii "/b") := by
  decide

end Settled

end GnomeVfs
