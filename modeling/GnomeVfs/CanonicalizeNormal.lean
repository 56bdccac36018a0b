import GnomeVfs.CanonicalizeFixed

/- `_gnome_vfs_canonicalize_pathname` with its assertions, and the normal form that it gives. -/
namespace GnomeVfs

variable {path : Bytes} {i : Nat}

section Asserted

/- What becomes of an offset that is put into an `int`. Below 2^31 it is the same. -/
variable (int : Nat → Option Nat)

/-- `find_next_slash` with its assertion, and `none` where that fails. An offset that is negative is
no slash. -/
def findNextSlashAsserted (path : Bytes) (currentOffset : Nat) : Option (Option Nat) :=
  if currentOffset ≤ path.length then some ((findNextSlash path currentOffset).bind int) else none

/-- The loop of `find_slash_before_offset`, and `none` also where it does not end. -/
def findSlashBeforeOffsetLoopAsserted (path : Bytes) (limit : Nat) : Nat → Nat → Option Nat → Option (Option Nat)
  | 0, _, _ => none
  | fuel + 1, nextOffset, result => do
    match ← findNextSlashAsserted int path nextOffset with
    | none => return result
    | some found =>
      if limit ≤ found then return result
      else findSlashBeforeOffsetLoopAsserted path limit fuel (found + 1) (some found)

def findSlashBeforeOffsetAsserted (path : Bytes) (limit : Nat) : Option (Option Nat) :=
  findSlashBeforeOffsetLoopAsserted int path limit (path.length + 1) 0 none

/-- The index of `collapse_slash_runs` goes up to the end of the run. -/
def collapseSlashRunsAsserted (path : Bytes) (fromOffset : Nat) : Option Bytes := do
  let _ ← int (fromOffset + ((path.drop fromOffset).takeWhile (· == chrSlash)).length)
  return collapseSlashRuns path fromOffset

/-- Advance behind the next slash. -/
def canonicalizeAdvanceAsserted (path : Bytes) (i : Nat) : Option CanonicalizeStep := do
  match ← findNextSlashAsserted int path i with
  | none => return .done path
  | some j =>
    let i ← int (j + 1)
    return .next (← collapseSlashRunsAsserted int path i) i

/-- The marker is to be in front of the index. -/
def parentMarkerAsserted (path : Bytes) (i : Nat) : Option Nat := do
  let marker := match ← findSlashBeforeOffsetAsserted int path (i - 1) with
    | none => 0
    | some j => j + 1
  let marker := if byteAt path (i + 2) = 0 ∧ 1 < marker then marker - 1 else marker
  if marker < i then return marker else none

/-- A round. Where an index runs over, the behaviour is undefined. -/
def canonicalizeStepAsserted (path : Bytes) (i : Nat) : Option CanonicalizeStep :=
  if byteAt path i = 0 then some (.done path)
  else if byteAt path i = chrDot then do
    let second ← int (i + 1)
    if byteAt path second = 0 then
      if 1 < i ∧ byteAt path (i - 1) = chrSlash then return .done (path.take (i - 1))
      else return .done (path.take i)
    else if byteAt path second = chrSlash then
      let rest := path.take i ++ path.drop (i + 2)
      return .next (← if i = 0 then collapseSlashRunsAsserted int rest i else some rest) i
    else if byteAt path second = chrDot then do
      let third ← int (i + 2)
      if byteAt path third = chrSlash ∨ byteAt path third = 0 then
        if i ≠ 0 then do
          let marker ← parentMarkerAsserted int path i
          let stop := if byteAt path third = chrSlash then i + 1 else i
          return .next (← collapseSlashRunsAsserted int (path.take marker ++ path.drop (stop + 2)) marker) marker
        else
          let start := if byteAt path 2 = chrSlash then 3 else 2
          return .next (← collapseSlashRunsAsserted int path start) start
      else canonicalizeAdvanceAsserted int path i
    else canonicalizeAdvanceAsserted int path i
  else canonicalizeAdvanceAsserted int path i

def canonicalizeLoopAsserted : Nat → Bytes → Nat → Option Bytes
  | 0, _, _ => none
  | fuel + 1, path, i => do
    match ← canonicalizeStepAsserted int path i with
    | .done rest => return rest
    | .next rest j => canonicalizeLoopAsserted fuel rest j

/-- `gnome_vfs_make_path_name_canonical`, with offsets of any size: `none` where an assertion fails. -/
def makePathNameCanonical (path : Bytes) : Option Bytes := canonicalizeLoopAsserted some (2 * path.length + 1) path 0

/-- `gnome_vfs_make_path_name_canonical`, with the offsets in an `int`. -/
def makePathNameCanonicalInt (path : Bytes) : Option Bytes :=
  canonicalizeLoopAsserted intOffset (2 * path.length + 1) path 0

variable {int}

theorem findNextSlashAsserted_eq (fits : ∀ n ≤ path.length, int n = some n) (inside : i ≤ path.length) :
    findNextSlashAsserted int path i = some (findNextSlash path i) := by
  rw [findNextSlashAsserted, if_pos inside]
  cases next : findNextSlash path i with
  | none => rfl
  | some found =>
    have bounds := findNextSlash_bounds next
    rw [Option.bind_some, fits found (by omega)]

theorem findSlashBeforeOffsetLoopAsserted_eq (fits : ∀ n ≤ path.length, int n = some n) (limit : Nat) :
    ∀ (fuel nextOffset : Nat) (result : Option Nat), nextOffset ≤ path.length → path.length - nextOffset < fuel →
      findSlashBeforeOffsetLoopAsserted int path limit fuel nextOffset result =
        some (findSlashBeforeOffsetLoop path limit fuel nextOffset result) := by
  intro fuel
  induction fuel with
  | zero =>
    intro nextOffset result inside enough
    omega
  | succ fuel ih =>
    intro nextOffset result inside enough
    rw [findSlashBeforeOffsetLoopAsserted, findSlashBeforeOffsetLoop, findNextSlashAsserted_eq fits inside]
    cases next : findNextSlash path nextOffset with
    | none => rfl
    | some found =>
      have bounds := findNextSlash_bounds next
      dsimp only [Option.bind_eq_bind, Option.bind_some]
      split
      · rfl
      · exact ih (found + 1) (some found) (by omega) (by omega)

theorem collapseSlashRunsAsserted_eq {path rest : Bytes} (fits : ∀ n ≤ path.length, int n = some n)
    (shorter : rest.length ≤ path.length) (inside : i ≤ rest.length) :
    collapseSlashRunsAsserted int rest i = some (collapseSlashRuns rest i) := by
  have run := (List.takeWhile_prefix (· == chrSlash) (l := rest.drop i)).length_le
  rw [List.length_drop] at run
  rw [collapseSlashRunsAsserted, fits _ (by omega)]
  rfl

/-- In a round that is inside the path no assertion fails. -/
theorem canonicalizeStepAsserted_eq (fits : ∀ n ≤ path.length, int n = some n) (inside : i ≤ path.length) :
    canonicalizeStepAsserted int path i = some (canonicalizeStep path i) := by
  have advance : canonicalizeAdvanceAsserted int path i = some (canonicalizeAdvance path i) := by
    rw [canonicalizeAdvanceAsserted, canonicalizeAdvance, findNextSlashAsserted_eq fits inside]
    cases next : findNextSlash path i with
    | none => rfl
    | some j =>
      have bounds := findNextSlash_bounds next
      dsimp only [Option.bind_eq_bind, Option.bind_some]
      rw [fits (j + 1) (by omega), Option.bind_some, collapseSlashRunsAsserted_eq fits (Nat.le_refl _) (by omega)]
      rfl
  have marker : i ≠ 0 → parentMarkerAsserted int path i = some (parentMarker path i) := by
    intro positive
    have before := parentMarker_lt path positive
    have found : findSlashBeforeOffsetAsserted int path (i - 1) = some (findSlashBeforeOffset path (i - 1)) :=
      findSlashBeforeOffsetLoopAsserted_eq fits (i - 1) (path.length + 1) 0 none (by omega) (by omega)
    rw [parentMarker] at before ⊢
    rw [parentMarkerAsserted, found]
    exact if_pos before
  rw [canonicalizeStepAsserted, canonicalizeStep, advance]
  by_cases ended : byteAt path i = 0
  · rw [if_pos ended, if_pos ended]
  rw [if_neg ended, if_neg ended]
  by_cases dot : byteAt path i = chrDot
  · have here := lt_length_of_byteAt_ne_zero ended
    rw [if_pos dot, if_pos dot, fits (i + 1) (by omega)]
    dsimp only [Option.bind_eq_bind, Option.bind_some]
    by_cases last : byteAt path (i + 1) = 0
    · rw [if_pos last, if_pos last]
      split
      · rfl
      · rfl
    have second := lt_length_of_byteAt_ne_zero last
    rw [if_neg last, if_neg last]
    by_cases slash : byteAt path (i + 1) = chrSlash
    · rw [if_pos slash, if_pos slash]
      by_cases zero : i = 0
      · have shorter := (take_append_drop_sublist path (i := i) (j := i + 2) (by omega)).length_le
        rw [if_pos zero, if_pos zero, collapseSlashRunsAsserted_eq fits shorter (by omega)]
        rfl
      · rw [if_neg zero, if_neg zero]
        rfl
    rw [if_neg slash, if_neg slash]
    by_cases dots : byteAt path (i + 1) = chrDot
    · rw [if_pos dots, fits (i + 2) (by omega)]
      dsimp only [Option.bind_some]
      by_cases behind : byteAt path (i + 2) = chrSlash ∨ byteAt path (i + 2) = 0
      · rw [if_pos behind, if_pos (And.intro dots behind)]
        by_cases positive : i ≠ 0
        · have before := parentMarker_lt path positive
          have shorter := (take_append_drop_sublist path (i := parentMarker path i)
            (j := (if byteAt path (i + 2) = chrSlash then i + 1 else i) + 2) (by split <;> omega)).length_le
          rw [if_pos positive, if_pos positive, marker positive, Option.bind_some]
          rw [collapseSlashRunsAsserted_eq fits shorter (by rw [List.length_append, List.length_take]; omega)]
          rfl
        · have start : (if byteAt path 2 = chrSlash then 3 else 2) ≤ path.length := by
            split
            · rename_i slash
              have := lt_length_of_byteAt_ne_zero (s := path) (i := 2) (by rw [slash]; decide)
              omega
            · omega
          rw [if_neg positive, if_neg positive, collapseSlashRunsAsserted_eq fits (Nat.le_refl _) start]
          rfl
      · rw [if_neg behind, if_neg fun both => behind both.2]
    · rw [if_neg dots, if_neg fun both => dots both.1]
  · rw [if_neg dot, if_neg dot]

theorem canonicalizeLoopAsserted_eq (fuel : Nat) : ∀ {path : Bytes} {i : Nat}, (∀ n ≤ path.length, int n = some n) →
    i ≤ path.length → 2 * path.length - i < fuel →
      canonicalizeLoopAsserted int fuel path i = some (canonicalizeLoop fuel path i) := by
  induction fuel with
  | zero =>
    intro path i fits inside enough
    omega
  | succ fuel ih =>
    intro path i fits inside enough
    rw [canonicalizeLoopAsserted, canonicalizeLoop, canonicalizeStepAsserted_eq fits inside]
    cases step : canonicalizeStep path i with
    | done rest => rfl
    | next rest j =>
      have progress := canonicalizeStep_progress step
      have decreasing := progress.decreasing
      exact ih (fun n small => fits n (Nat.le_trans small progress.shorter)) progress.inside (by omega)

theorem makePathNameCanonical_eq (path : Bytes) : makePathNameCanonical path = some (canonicalizePathname path) :=
  canonicalizeLoopAsserted_eq _ (fun _ _ => rfl) (Nat.zero_le _) (by omega)

/-- Below 2^31 bytes no offset runs over. -/
theorem makePathNameCanonicalInt_eq (small : path.length < 2 ^ 31) :
    makePathNameCanonicalInt path = makePathNameCanonical path := by
  rw [makePathNameCanonical_eq]
  exact canonicalizeLoopAsserted_eq _ (fun n inside => intOffset_eq (by omega)) (Nat.zero_le _) (by omega)

end Asserted

section Stack

/-- The parts of a path that are neither empty nor `.`. -/
def namedParts (path : Bytes) : List Bytes := (segments path).filter fun part => part ≠ [] ∧ part ≠ [chrDot]

/-- The stack, its top first, that the parts lead to, where no `..` meets an empty stack. With `first`
a `..` may come first of all; it is kept, and never taken away. -/
def climbParts : Bool → List Bytes → List Bytes → Option (List Bytes)
  | _, stack, [] => some stack
  | first, stack, part :: rest =>
    if part = [chrDot, chrDot] then
      match stack with
      | [] => if first then climbParts false [part] rest else none
      | top :: below => if top = [chrDot, chrDot] then none else climbParts false below rest
    else climbParts false (part :: stack) rest

theorem climbParts_push {part : Bytes} (dots : part ≠ [chrDot, chrDot]) (first : Bool) (stack rest : List Bytes) :
    climbParts first stack (part :: rest) = climbParts false (part :: stack) rest := by
  cases stack with
  | nil => rw [climbParts, if_neg dots]
  | cons top below => rw [climbParts, if_neg dots]

theorem climbParts_pop (first : Bool) (top : Bytes) (below rest : List Bytes) :
    climbParts first (top :: below) ([chrDot, chrDot] :: rest) =
      if top = [chrDot, chrDot] then none else climbParts false below rest := by
  rw [climbParts, if_pos rfl]

def isRooted (path : Bytes) : Bool := path.head? = some chrSlash

/-- The stack that a path leads to, its bottom first. Only a path without a slash at its start may
have a `..` first. -/
def segmentStack (path : Bytes) : Option (List Bytes) :=
  (climbParts (!isRooted path) [] (namedParts path)).map List.reverse

example : segmentStack (ascii "../a//./b/../c") = some [ascii "..", ascii "a", ascii "c"] := by decide

example : segmentStack (ascii "/a/../..") = none := by decide

/-- What the parts on a stack look like. -/
structure Stacked (rooted : Bool) (stack : List Bytes) : Prop where
  named : ∀ part ∈ stack, part ≠ [] ∧ part ≠ [chrDot]
  proper : ∀ part ∈ stack, ∀ c ∈ part, c ≠ 0 ∧ c ≠ chrSlash
  inner : ∀ part ∈ stack.dropLast, part ≠ [chrDot, chrDot]
  rooted : rooted = true → ∀ part ∈ stack, part ≠ [chrDot, chrDot]

/-- The text of a stack, each part with a slash behind it. -/
def stackText (rooted : Bool) (stack : List Bytes) : Bytes :=
  (if rooted then [chrSlash] else []) ++ stack.reverse.flatMap (· ++ [chrSlash])

variable {rooted : Bool} {stack below : List Bytes} {part top tail : Bytes}

theorem mem_dropLast_cons {a b : Bytes} (member : a ∈ (b :: stack).dropLast) : a = b ∨ a ∈ stack.dropLast := by
  cases stack with
  | nil => cases member
  | cons first rest =>
    rw [List.dropLast_cons_of_ne_nil (List.cons_ne_nil _ _)] at member
    exact List.mem_cons.mp member

theorem Stacked.push (stacked : Stacked rooted stack) (named : part ≠ [] ∧ part ≠ [chrDot])
    (proper : ∀ c ∈ part, c ≠ 0 ∧ c ≠ chrSlash) (dots : part ≠ [chrDot, chrDot]) :
    Stacked rooted (part :: stack) := by
  constructor
  · intro other member
    cases member with
    | head => exact named
    | tail _ later => exact stacked.named other later
  · intro other member
    cases member with
    | head => exact proper
    | tail _ later => exact stacked.proper other later
  · intro other member
    cases mem_dropLast_cons member with
    | inl same => rw [same]; exact dots
    | inr later => exact stacked.inner other later
  · intro isRooted other member
    cases member with
    | head => exact dots
    | tail _ later => exact stacked.rooted isRooted other later

theorem Stacked.pop (stacked : Stacked rooted (top :: below)) : Stacked rooted below := by
  constructor
  · exact fun part member => stacked.named part (List.mem_cons_of_mem _ member)
  · exact fun part member => stacked.proper part (List.mem_cons_of_mem _ member)
  · intro part member
    apply stacked.inner
    cases below with
    | nil => cases member
    | cons first rest =>
      rw [List.dropLast_cons_of_ne_nil (List.cons_ne_nil _ _)]
      exact List.mem_cons_of_mem _ member
  · exact fun isRooted part member => stacked.rooted isRooted part (List.mem_cons_of_mem _ member)

theorem stackText_cons : stackText rooted (part :: stack) = stackText rooted stack ++ (part ++ [chrSlash]) := by
  simp [stackText]

theorem segments_stackText (clear : ∀ part ∈ stack, chrSlash ∉ part) : ∀ tail : Bytes,
    segments (stackText rooted stack ++ tail) = (if rooted then [[]] else []) ++ stack.reverse ++ segments tail := by
  induction stack with
  | nil =>
    intro tail
    cases rooted with
    | false => rfl
    | true => exact @segments_cons [] (by simp) tail
  | cons part stack ih =>
    intro tail
    have later := ih (fun other member => clear other (List.mem_cons_of_mem _ member)) (part ++ chrSlash :: tail)
    rw [stackText_cons, List.append_assoc, List.append_assoc, List.singleton_append, later,
      segments_cons (clear part List.mem_cons_self)]
    simp

theorem Stacked.clear (stacked : Stacked rooted stack) : ∀ part ∈ stack, chrSlash ∉ part :=
  fun part member slash => (stacked.proper part member _ slash).2 rfl

/-- The text has the parts of the stack, a slash at its start only where it is rooted, and nothing
that can be taken out. -/
structure Normal (rooted : Bool) (stack : List Bytes) (result : Bytes) : Prop where
  parts : namedParts result = stack.reverse
  rooted : isRooted result = rooted
  settled : Settled result

theorem isRooted_stackText (stacked : Stacked rooted stack) (other : isRooted tail = false) :
    isRooted (stackText rooted stack ++ tail) = rooted := by
  cases rooted with
  | true => rfl
  | false =>
    rw [stackText, if_neg (by decide), List.nil_append]
    cases shape : stack.reverse with
    | nil => exact other
    | cons bottom rest =>
      have member : bottom ∈ stack := by
        rw [← List.mem_reverse, shape]
        exact List.mem_cons_self
      have nonempty := (stacked.named bottom member).1
      cases bottom with
      | nil => exact absurd rfl nonempty
      | cons c more =>
        have clear := (stacked.proper _ member c List.mem_cons_self).2
        simp [isRooted, clear]

/-- The parts of a stack and one more part, which may be empty. -/
theorem Stacked.settled (stacked : Stacked rooted stack) {last : Bytes} (clear : chrSlash ∉ last)
    (dot : last ≠ [chrDot]) (dots : last = [chrDot, chrDot] → stack = [] ∧ rooted = false) :
    Settled (stackText rooted stack ++ last) := by
  have apart : ∀ part ∈ stack.reverse.tail, part ≠ [chrDot, chrDot] := by
    intro part member
    rw [List.tail_reverse, List.mem_reverse] at member
    exact stacked.inner part member
  rw [Settled, segments_stackText stacked.clear, segments_of_no_slash clear]
  refine ⟨?_, ?_, ?_⟩
  · intro member
    rw [List.mem_append, List.mem_append, List.mem_reverse, List.mem_singleton] at member
    rcases member with (lead | inside) | same
    · split at lead
      · cases List.mem_singleton.mp lead
      · cases lead
    · exact (stacked.named _ inside).2 rfl
    · exact dot same.symm
  · intro member
    cases rooted with
    | true =>
      have member : [chrDot, chrDot] ∈ stack.reverse ++ [last] := member
      rw [List.mem_append, List.mem_reverse, List.mem_singleton] at member
      rcases member with inside | same
      · exact stacked.rooted rfl _ inside rfl
      · cases (dots same.symm).2
    | false =>
      have member : [chrDot, chrDot] ∈ (stack.reverse ++ [last]).tail := member
      cases shape : stack.reverse with
      | nil =>
        rw [shape] at member
        cases member
      | cons bottom rest =>
        rw [shape, List.cons_append, List.tail_cons, List.mem_append, List.mem_singleton] at member
        rcases member with inside | same
        · rw [shape] at apart
          exact apart _ inside rfl
        · have empty := (dots same.symm).1
          rw [empty] at shape
          cases shape
  · intro member
    cases rooted with
    | true =>
      have member : [] ∈ (stack.reverse ++ [last]).dropLast := member
      rw [List.dropLast_concat, List.mem_reverse] at member
      exact (stacked.named _ member).1 rfl
    | false =>
      have member : [] ∈ (stack.reverse ++ [last]).tail.dropLast := member
      cases shape : stack.reverse with
      | nil =>
        rw [shape] at member
        cases member
      | cons bottom rest =>
        rw [shape, List.cons_append, List.tail_cons, List.dropLast_concat] at member
        have inside : [] ∈ stack := by
          rw [← List.mem_reverse, shape]
          exact List.mem_cons_of_mem _ member
        exact (stacked.named _ inside).1 rfl

theorem Stacked.namedParts_append (stacked : Stacked rooted stack) (tail : Bytes) :
    namedParts (stackText rooted stack ++ tail) = stack.reverse ++ namedParts tail := by
  rw [namedParts, segments_stackText stacked.clear, List.filter_append, List.filter_append]
  have lead : (if rooted = true then [[]] else []).filter (fun part : Bytes => part ≠ [] ∧ part ≠ [chrDot]) = [] := by
    cases rooted with
    | true => rfl
    | false => rfl
  have kept : stack.reverse.filter (fun part : Bytes => part ≠ [] ∧ part ≠ [chrDot]) = stack.reverse := by
    rw [List.filter_eq_self]
    intro part member
    exact decide_eq_true (stacked.named part (List.mem_reverse.mp member))
  rw [lead, kept, List.nil_append, namedParts]

theorem Stacked.normal (stacked : Stacked rooted stack) : Normal rooted stack (stackText rooted stack) := by
  have parts := stacked.namedParts_append []
  have settled := @Stacked.settled rooted stack stacked [] (by simp) (by simp) fun never => by cases never
  have root := @isRooted_stackText rooted stack [] stacked rfl
  rw [List.append_nil] at parts settled root
  refine ⟨?_, root, settled⟩
  rw [parts]
  exact List.append_nil _

theorem Stacked.normal_last (stacked : Stacked rooted stack) (named : part ≠ [] ∧ part ≠ [chrDot])
    (proper : ∀ c ∈ part, c ≠ 0 ∧ c ≠ chrSlash) (dots : part = [chrDot, chrDot] → stack = [] ∧ rooted = false) :
    Normal rooted (part :: stack) (stackText rooted stack ++ part) := by
  have clear : chrSlash ∉ part := fun slash => (proper _ slash).2 rfl
  have unrooted : isRooted part = false := by
    cases part with
    | nil => rfl
    | cons c more => simp [isRooted, (proper c List.mem_cons_self).2]
  refine ⟨?_, isRooted_stackText stacked unrooted, stacked.settled clear named.2 dots⟩
  rw [stacked.namedParts_append, namedParts, segments_of_no_slash clear, List.reverse_cons]
  congr 1
  exact List.filter_cons_of_pos (decide_eq_true named)

end Stack

/-- No slash stands between two places. -/
def NoSlash (path : Bytes) (i j : Nat) : Prop := ∀ k, i ≤ k → k < j → path[k]? ≠ some chrSlash

theorem findNextSlash_none (absent : findNextSlash path i = none) (j : Nat) :
    NoSlash path i j := by
  intro k lower _ slash
  have none := Option.map_eq_none_iff.mp absent
  rw [List.findIdx?_eq_none_iff] at none
  have here : (path.drop i)[k - i]? = some chrSlash := by
    rw [List.getElem?_drop, show i + (k - i) = k by omega]
    exact slash
  have differs := none chrSlash (List.mem_of_getElem? here)
  cases differs

theorem findNextSlash_some {i j : Nat} (found : findNextSlash path i = some j) :
    i ≤ j ∧ path[j]? = some chrSlash ∧ NoSlash path i j := by
  obtain ⟨k, here, rfl⟩ := Option.map_eq_some_iff.mp found
  obtain ⟨inside, slash, before⟩ := List.findIdx?_eq_some_iff_getElem.mp here
  have at_k : (path.drop i)[k]? = some chrSlash := by
    rw [List.getElem?_eq_getElem inside]
    exact congrArg some (by simpa using slash)
  rw [List.getElem?_drop] at at_k
  refine ⟨by omega, ?_, ?_⟩
  · rw [show k + i = i + k by omega]
    exact at_k
  · intro n lower upper other
    have earlier := before (n - i) (by omega)
    have same : (path.drop i)[n - i]? = some chrSlash := by
      rw [List.getElem?_drop, show i + (n - i) = n by omega]
      exact other
    rw [List.getElem?_eq_getElem (by omega)] at same
    rw [Option.some.inj same] at earlier
    simp at earlier

/-- The last slash in front of the limit, from a place on. -/
theorem findSlashBeforeOffsetLoop_spec (path : Bytes) (limit : Nat) : ∀ (fuel nextOffset : Nat) (result : Option Nat),
    path.length - nextOffset < fuel →
      (findSlashBeforeOffsetLoop path limit fuel nextOffset result = result ∧ NoSlash path nextOffset limit) ∨
      ∃ k, findSlashBeforeOffsetLoop path limit fuel nextOffset result = some k ∧ nextOffset ≤ k ∧ k < limit ∧
        path[k]? = some chrSlash ∧ NoSlash path (k + 1) limit := by
  intro fuel
  induction fuel with
  | zero =>
    intro nextOffset result enough
    omega
  | succ fuel ih =>
    intro nextOffset result enough
    rw [findSlashBeforeOffsetLoop]
    cases next : findNextSlash path nextOffset with
    | none => exact Or.inl ⟨rfl, findNextSlash_none next limit⟩
    | some found =>
      have bounds := findNextSlash_bounds next
      obtain ⟨lower, slash, between⟩ := findNextSlash_some next
      dsimp only
      by_cases past : limit ≤ found
      · rw [if_pos past]
        refine Or.inl ⟨rfl, ?_⟩
        intro k above below
        exact between k above (by omega)
      · rw [if_neg past]
        right
        cases ih (found + 1) (some found) (by omega) with
        | inl last => exact ⟨found, last.1, lower, by omega, slash, last.2⟩
        | inr later =>
          obtain ⟨k, same, above, below, here, rest⟩ := later
          exact ⟨k, same, by omega, below, here, rest⟩

variable {front : Bytes}

theorem getElem?_front (back : Bytes) {k : Nat} (inside : k < front.length) :
    (front ++ back)[k]? = front[k]? := List.getElem?_append_left inside

/-- The slash that the part in front of a `..` begins behind. -/
theorem findSlashBeforeOffset_part {front part : Bytes} (back : Bytes) (clear : chrSlash ∉ part)
    (ends : front = [] ∨ front.getLast? = some chrSlash) :
    findSlashBeforeOffset (front ++ (part ++ back)) (front.length + part.length) =
      if front = [] then none else some (front.length - 1) := by
  have within : NoSlash (front ++ (part ++ back)) front.length (front.length + part.length) := by
    intro k above below slash
    rw [List.getElem?_append_right above, List.getElem?_append_left (by omega)] at slash
    exact clear (List.mem_of_getElem? slash)
  have spec := findSlashBeforeOffsetLoop_spec (front ++ (part ++ back)) (front.length + part.length)
    ((front ++ (part ++ back)).length + 1) 0 none (by omega)
  rw [findSlashBeforeOffset]
  by_cases empty : front = []
  · rw [if_pos empty]
    cases spec with
    | inl last => exact last.1
    | inr found =>
      obtain ⟨k, -, -, below, slash, -⟩ := found
      have length : front.length = 0 := by rw [empty]; rfl
      exact absurd slash (within k (by omega) below)
  · rw [if_neg empty]
    have positive : 0 < front.length := List.length_pos_iff.mpr empty
    have last := ends.resolve_left empty
    rw [List.getLast?_eq_getElem?] at last
    have here : (front ++ (part ++ back))[front.length - 1]? = some chrSlash := by
      rw [getElem?_front _ (by omega)]
      exact last
    cases spec with
    | inl none => exact absurd here (none.2 (front.length - 1) (by omega) (by omega))
    | inr found =>
      obtain ⟨k, same, -, below, slash, rest⟩ := found
      have bound : k < front.length := by
        by_contra outside
        exact within k (by omega) below slash
      have exact_place : k = front.length - 1 := by
        by_contra other
        exact rest (front.length - 1) (by omega) (by omega) here
      rw [same, exact_place]

section Rounds

variable {rooted : Bool} {stack below : List Bytes} {top tail : Bytes}

theorem stackText_ends : stackText rooted stack = [] ∨ (stackText rooted stack).getLast? = some chrSlash := by
  cases stack with
  | nil =>
    cases rooted with
    | false => exact Or.inl rfl
    | true => exact Or.inr rfl
  | cons part stack =>
    right
    rw [stackText_cons, ← List.append_assoc, List.getLast?_concat]

/-- The slashes at the start are left out. -/
def cutRun (tail : Bytes) : Bytes := tail.dropWhile (· == chrSlash)

theorem collapseSlashRuns_front (here : i = front.length) (tail : Bytes) :
    collapseSlashRuns (front ++ tail) i = front ++ cutRun tail := by
  rw [here]
  exact collapseSlashRuns_append front tail

theorem cutRun_of_head {tail : Bytes} (start : tail.head? ≠ some chrSlash) : cutRun tail = tail := by
  cases tail with
  | nil => rfl
  | cons c rest =>
    have other : (c == chrSlash) = false := by simpa using start
    rw [cutRun, List.dropWhile_cons_of_neg (by simp [other])]

/-- The text of a stack without the slash at its end. -/
def stackPath (rooted : Bool) : List Bytes → Bytes
  | [] => stackText rooted []
  | top :: below => stackText rooted below ++ top

theorem Stacked.normal_path (stacked : Stacked rooted stack) : Normal rooted stack (stackPath rooted stack) := by
  cases stack with
  | nil => exact stacked.normal
  | cons top below =>
    apply stacked.pop.normal_last (stacked.named top List.mem_cons_self) (stacked.proper top List.mem_cons_self)
    intro dots
    constructor
    · by_contra more
      apply stacked.inner top _ dots
      rw [List.dropLast_cons_of_ne_nil more]
      exact List.mem_cons_self
    · by_contra isRooted
      exact stacked.rooted (by simpa using isRooted) top List.mem_cons_self dots

theorem stackText_take (stacked : Stacked rooted stack) :
    (stackText rooted stack).take (if 1 < (stackText rooted stack).length then (stackText rooted stack).length - 1
      else (stackText rooted stack).length) = stackPath rooted stack := by
  cases stack with
  | nil =>
    cases rooted with
    | false => rfl
    | true => rfl
  | cons top below =>
    have nonempty := List.length_pos_iff.mpr (stacked.named top List.mem_cons_self).1
    have length : (stackText rooted (top :: below)).length = (stackText rooted below ++ top).length + 1 := by
      rw [stackText_cons]
      simp only [List.length_append, List.length_singleton]
      omega
    have long : 1 < (stackText rooted below ++ top).length + 1 := by
      rw [List.length_append]
      omega
    rw [length, if_pos long, Nat.add_sub_cancel, stackText_cons, ← List.append_assoc, List.take_left]
    rfl

/-- A `.` at the end, behind the parts of a stack. -/
theorem canonicalizeStep_dot_end (stacked : Stacked rooted stack) :
    canonicalizeStep (stackText rooted stack ++ [chrDot]) (stackText rooted stack).length =
      .done (stackPath rooted stack) := by
  have first : byteAt (stackText rooted stack ++ [chrDot]) (stackText rooted stack).length = chrDot :=
    byteAt_append _ [chrDot] 0
  have second : byteAt (stackText rooted stack ++ [chrDot]) ((stackText rooted stack).length + 1) = 0 :=
    byteAt_append _ [chrDot] 1
  rw [canonicalizeStep, first, second, if_neg (by decide), if_pos rfl, if_pos rfl]
  cases stack with
  | nil =>
    cases rooted with
    | false => rfl
    | true => rfl
  | cons top below =>
    have nonempty := List.length_pos_iff.mpr (stacked.named top List.mem_cons_self).1
    have text : stackText rooted (top :: below) ++ [chrDot] =
        (stackText rooted below ++ top) ++ chrSlash :: [chrDot] := by
      rw [stackText_cons]
      simp
    have length : (stackText rooted (top :: below)).length = (stackText rooted below ++ top).length + 1 := by
      rw [stackText_cons]
      simp only [List.length_append, List.length_singleton]
      omega
    have slash : byteAt ((stackText rooted below ++ top) ++ chrSlash :: [chrDot])
        (stackText rooted below ++ top).length = chrSlash := byteAt_append _ (chrSlash :: [chrDot]) 0
    have long : 1 < (stackText rooted below ++ top).length + 1 := by
      rw [List.length_append]
      omega
    rw [text, length, Nat.add_sub_cancel, slash, if_pos ⟨long, rfl⟩, List.take_left]
    rfl

/-- A `.` in front of a slash. Only at the start of the path the slashes behind it are left out as well. -/
theorem canonicalizeStep_dot_slash (front tail : Bytes) :
    canonicalizeStep (front ++ chrDot :: chrSlash :: tail) front.length =
      .next (front ++ if front = [] then cutRun tail else tail) front.length := by
  have first : byteAt (front ++ chrDot :: chrSlash :: tail) front.length = chrDot :=
    byteAt_append front (chrDot :: chrSlash :: tail) 0
  have second : byteAt (front ++ chrDot :: chrSlash :: tail) (front.length + 1) = chrSlash :=
    byteAt_append front (chrDot :: chrSlash :: tail) 1
  have without : (front ++ chrDot :: chrSlash :: tail).drop (front.length + 2) = tail := by
    rw [List.drop_append, List.drop_eq_nil_of_le (by omega)]
    simp
  rw [canonicalizeStep, first, second, if_neg (by decide), if_pos rfl, if_neg (by decide), if_pos rfl]
  dsimp only
  rw [List.take_left, without]
  by_cases empty : front = []
  · rw [empty, if_pos List.length_nil]
    rfl
  · rw [if_neg (by simpa using empty), if_neg empty]

theorem canonicalizeStep_dot_part (start : front ≠ [] → tail.head? ≠ some chrSlash) :
    canonicalizeStep (front ++ chrDot :: chrSlash :: tail) front.length = .next (front ++ cutRun tail) front.length := by
  rw [canonicalizeStep_dot_slash]
  by_cases empty : front = []
  · rw [if_pos empty]
  · rw [if_neg empty, cutRun_of_head (start empty)]

theorem parentMarker_part (clear : chrSlash ∉ top) (back : Bytes) :
    parentMarker (stackText rooted (top :: below) ++ back) (stackText rooted (top :: below)).length =
      if byteAt back 2 = 0 ∧ 1 < (stackText rooted below).length then (stackText rooted below).length - 1
      else (stackText rooted below).length := by
  have text : stackText rooted (top :: below) ++ back = stackText rooted below ++ (top ++ chrSlash :: back) := by
    rw [stackText_cons]
    simp
  have length : (stackText rooted (top :: below)).length - 1 = (stackText rooted below).length + top.length := by
    rw [stackText_cons]
    simp only [List.length_append, List.length_singleton]
    omega
  have found := findSlashBeforeOffset_part (chrSlash :: back) clear
    (@stackText_ends rooted below)
  have third : byteAt (stackText rooted (top :: below) ++ back) ((stackText rooted (top :: below)).length + 2) =
      byteAt back 2 := byteAt_append _ back 2
  rw [parentMarker, third, length, text, found]
  by_cases empty : stackText rooted below = []
  · rw [empty]
    rfl
  · have positive : 0 < (stackText rooted below).length := List.length_pos_iff.mpr empty
    have same := Nat.sub_add_cancel positive
    rw [if_neg empty]
    simp only [same]

/-- A `..` behind a part, with what follows it. -/
theorem canonicalizeStep_dots_part (clear : chrSlash ∉ top) {back : Bytes} (ends : EndsPart back) :
    canonicalizeStep (stackText rooted (top :: below) ++ chrDot :: chrDot :: back)
        (stackText rooted (top :: below)).length =
      let marker := if back = [] ∧ 1 < (stackText rooted below).length then (stackText rooted below).length - 1
        else (stackText rooted below).length
      .next ((stackText rooted below).take marker ++ cutRun back.tail) marker := by
  let front := stackText rooted (top :: below)
  have first : byteAt (front ++ chrDot :: chrDot :: back) front.length = chrDot :=
    byteAt_append front (chrDot :: chrDot :: back) 0
  have second : byteAt (front ++ chrDot :: chrDot :: back) (front.length + 1) = chrDot :=
    byteAt_append front (chrDot :: chrDot :: back) 1
  have third : byteAt (front ++ chrDot :: chrDot :: back) (front.length + 2) = byteAt back 0 :=
    byteAt_append front (chrDot :: chrDot :: back) 2
  have length : front.length = (stackText rooted below).length + top.length + 1 := by
    show (stackText rooted (top :: below)).length = _
    rw [stackText_cons]
    simp only [List.length_append, List.length_singleton]
    omega
  have text : front = stackText rooted below ++ (top ++ [chrSlash]) := stackText_cons
  have last : byteAt back 0 = 0 ↔ back = [] := by
    rcases ends with rfl | ⟨rest, rfl⟩
    · exact ⟨fun _ => rfl, fun _ => rfl⟩
    · exact ⟨fun never => absurd never (by decide : chrSlash ≠ 0), fun never => by cases never⟩
  have marked := @parentMarker_part rooted below top clear (chrDot :: chrDot :: back)
  have behind : byteAt (chrDot :: chrDot :: back) 2 = byteAt back 0 := rfl
  rw [behind] at marked
  simp only [last] at marked
  have ended : byteAt back 0 = chrSlash ∨ byteAt back 0 = 0 := by
    rcases ends with rfl | ⟨rest, rfl⟩
    · exact Or.inr rfl
    · exact Or.inl rfl
  rw [canonicalizeStep, first, second, if_neg (by decide), if_pos rfl, if_neg (by decide), if_neg (by decide), third,
    if_pos ⟨rfl, ended⟩, if_pos (show front.length ≠ 0 by omega)]
  dsimp only
  rw [marked]
  generalize shape : (if back = [] ∧ 1 < (stackText rooted below).length then (stackText rooted below).length - 1
    else (stackText rooted below).length) = marker
  have bound : marker ≤ (stackText rooted below).length := by
    rw [← shape]
    split
    · omega
    · omega
  have left : (front ++ chrDot :: chrDot :: back).take marker = (stackText rooted below).take marker := by
    rw [text, List.append_assoc, List.take_append_of_le_length bound]
  have right : (front ++ chrDot :: chrDot :: back).drop
      ((if byteAt back 0 = chrSlash then front.length + 1 else front.length) + 2) = back.tail := by
    rcases ends with rfl | ⟨rest, rfl⟩
    · rw [if_neg (by decide), List.drop_eq_nil_of_le (by simp)]
      rfl
    · have slash : byteAt (chrSlash :: rest) 0 = chrSlash := rfl
      rw [if_pos slash, List.drop_append, List.drop_eq_nil_of_le (by omega), List.nil_append,
        show front.length + 1 + 2 - front.length = 3 by omega]
      rfl
  rw [left, right]
  congr 1
  exact collapseSlashRuns_front (by rw [List.length_take]; omega) back.tail

end Rounds

section Normalize

/-- What the rounds of the loop lead to. -/
inductive Canonicalizes : Bytes → Nat → Bytes → Prop where
  | done {path result : Bytes} {i : Nat} : canonicalizeStep path i = .done result → Canonicalizes path i result
  | next {path rest result : Bytes} {i j : Nat} : canonicalizeStep path i = .next rest j → Canonicalizes rest j result →
      Canonicalizes path i result

theorem Canonicalizes.loop {path result : Bytes} (leads : Canonicalizes path i result) :
    ∀ {fuel : Nat}, 2 * path.length - i < fuel → canonicalizeLoop fuel path i = result := by
  induction leads with
  | done step =>
    intro fuel enough
    obtain ⟨fuel, rfl⟩ : ∃ n, fuel = n + 1 := ⟨fuel - 1, by omega⟩
    rw [canonicalizeLoop, step]
  | next step leads ih =>
    intro fuel enough
    obtain ⟨fuel, rfl⟩ : ∃ n, fuel = n + 1 := ⟨fuel - 1, by omega⟩
    have decreasing := (canonicalizeStep_progress step).decreasing
    rw [canonicalizeLoop, step]
    exact ih (by omega)

theorem canonicalizes_end (path : Bytes) : Canonicalizes path path.length path := by
  have last := @canonicalizeStep_last path [] (by simp) (by simp) (by simp)
  rw [List.append_nil] at last
  exact .done last

variable {rooted first : Bool} {stack final : List Bytes} {part tail : Bytes}

theorem namedParts_cons (clear : chrSlash ∉ part) (tail : Bytes) : namedParts (part ++ chrSlash :: tail) =
    if part ≠ [] ∧ part ≠ [chrDot] then part :: namedParts tail else namedParts tail := by
  rw [namedParts, segments_cons clear, List.filter_cons, namedParts]
  simp only [decide_eq_true_iff]

theorem namedParts_single (clear : chrSlash ∉ part) : namedParts part =
    if part ≠ [] ∧ part ≠ [chrDot] then [part] else [] := by
  rw [namedParts, segments_of_no_slash clear, List.filter_cons]
  simp only [decide_eq_true_iff, List.filter_nil]

theorem namedParts_cutRun (tail : Bytes) : namedParts (cutRun tail) = namedParts tail := by
  induction tail with
  | nil => rfl
  | cons c rest ih =>
    by_cases slash : c = chrSlash
    · have empty := @namedParts_cons [] (by simp) rest
      rw [if_neg (by simp), List.nil_append] at empty
      rw [slash, empty, ← ih]
      rfl
    · rw [cutRun_of_head (by simpa using slash)]

/-- What is still to be gone through. Behind a slash there is no `.` in front of a run of slashes. -/
structure Ahead (inner : Prop) (suffix : Bytes) : Prop where
  proper : (0 : UInt8) ∉ suffix
  start : suffix.head? ≠ some chrSlash
  runless : ¬ ascii "/.//" <:+: suffix
  behind : inner → ¬ ascii ".//" <+: suffix

theorem slash_cutRun_suffix (tail : Bytes) : chrSlash :: cutRun tail <:+ chrSlash :: tail := by
  induction tail with
  | nil => exact List.suffix_refl _
  | cons c rest ih =>
    by_cases slash : c = chrSlash
    · rw [slash]
      exact ih.trans (List.suffix_cons _ _)
    · have whole : cutRun (c :: rest) = c :: rest := cutRun_of_head (by simpa using slash)
      exact whole.symm ▸ List.suffix_refl _

theorem ahead_cut {inner : Prop} (proper : (0 : UInt8) ∉ part ++ chrSlash :: tail)
    (runless : ¬ ascii "/.//" <:+: part ++ chrSlash :: tail) : Ahead inner (cutRun tail) := by
  have behind : chrSlash :: cutRun tail <:+ part ++ chrSlash :: tail :=
    (slash_cutRun_suffix tail).trans (List.suffix_append _ _)
  have later : cutRun tail <:+ part ++ chrSlash :: tail := (List.suffix_cons _ _).trans behind
  constructor
  · exact fun zero => proper (later.mem zero)
  · intro slash
    have never := List.head?_dropWhile_not (· == chrSlash) tail
    rw [show (tail.dropWhile (· == chrSlash)).head? = some chrSlash from slash] at never
    simp at never
  · exact fun run => runless (run.trans later.isInfix)
  · intro _ run
    obtain ⟨rest, same⟩ := run
    apply runless
    have shape : ascii "/.//" ++ rest = chrSlash :: cutRun tail := by
      rw [← same]
      rfl
    have front : ascii "/.//" <+: chrSlash :: cutRun tail := ⟨rest, shape⟩
    exact front.isInfix.trans behind.isInfix

/-- The loop behind the parts of a stack. The induction is on the text that is left. -/
theorem canonicalizes_normal (size : Nat) : ∀ {suffix : Bytes} {stack : List Bytes} {first : Bool},
    suffix.length ≤ size → Stacked rooted stack → (first = true → stack = [] ∧ rooted = false) →
    Ahead (stackText rooted stack ≠ []) suffix → climbParts first stack (namedParts suffix) = some final →
      ∃ result, Canonicalizes (stackText rooted stack ++ suffix) (stackText rooted stack).length result ∧
        Normal rooted final result := by
  induction size with
  | zero =>
    intro suffix stack first small stacked bottom ahead climbs
    have empty : suffix = [] := List.length_eq_zero_iff.mp (by omega)
    rw [empty] at climbs ⊢
    cases Option.some.inj climbs
    rw [List.append_nil]
    exact ⟨_, canonicalizes_end _, stacked.normal⟩
  | succ size ih =>
    intro suffix stack first small stacked bottom ahead climbs
    rcases path_cases suffix with clear | ⟨part, tail, rfl, clear⟩
    · have proper : ∀ c ∈ suffix, c ≠ 0 ∧ c ≠ chrSlash := fun c member =>
        ⟨fun same => ahead.proper (same ▸ member), fun same => clear (same ▸ member)⟩
      rw [namedParts_single clear] at climbs
      by_cases empty : suffix = []
      · rw [empty] at climbs ⊢
        have same : stack = final := Option.some.inj climbs
        rw [List.append_nil, ← same]
        exact ⟨_, canonicalizes_end _, stacked.normal⟩
      by_cases dot : suffix = [chrDot]
      · rw [dot] at climbs ⊢
        have same : stack = final := Option.some.inj climbs
        rw [← same]
        exact ⟨_, .done (canonicalizeStep_dot_end stacked), stacked.normal_path⟩
      rw [if_pos ⟨empty, dot⟩] at climbs
      by_cases dots : suffix = [chrDot, chrDot]
      · rw [dots] at climbs ⊢
        cases stack with
        | nil =>
          cases first with
          | false => cases climbs
          | true =>
            have same : [[chrDot, chrDot]] = final := Option.some.inj climbs
            have unrooted := (bottom rfl).2
            rw [← same, unrooted]
            refine ⟨[chrDot, chrDot], .next rfl (canonicalizes_end [chrDot, chrDot]), ?_⟩
            exact ⟨by decide, by decide, by decide⟩
        | cons top below =>
          rw [climbParts_pop] at climbs
          by_cases kept : top = [chrDot, chrDot]
          · rw [if_pos kept] at climbs
            cases climbs
          · rw [if_neg kept] at climbs
            have same : below = final := Option.some.inj climbs
            have step := @canonicalizeStep_dots_part rooted below top (stacked.clear top List.mem_cons_self) []
              (Or.inl rfl)
            have taken := stackText_take stacked.pop
            have length := congrArg List.length taken
            rw [List.length_take] at length
            simp only [true_and, List.tail_nil, cutRun, List.dropWhile_nil, List.append_nil] at step
            rw [taken] at step
            have place : (if 1 < (stackText rooted below).length then (stackText rooted below).length - 1
                else (stackText rooted below).length) = (stackPath rooted below).length := by
              rw [← length]
              split
              · omega
              · omega
            rw [place] at step
            rw [← same]
            exact ⟨_, .next step (canonicalizes_end _), stacked.pop.normal_path⟩
      · rw [climbParts_push dots] at climbs
        have same : suffix :: stack = final := Option.some.inj climbs
        rw [← same]
        refine ⟨_, .done (canonicalizeStep_last proper dot dots), ?_⟩
        exact stacked.normal_last ⟨empty, dot⟩ proper fun never => absurd never dots
    · have proper : ∀ c ∈ part, c ≠ 0 ∧ c ≠ chrSlash := fun c member =>
        ⟨fun same => ahead.proper (by simp [← same, member]), fun same => clear (same ▸ member)⟩
      have empty : part ≠ [] := by
        intro none
        apply ahead.start
        rw [none]
        rfl
      have shorter : (cutRun tail).length ≤ size := by
        have cut := (List.dropWhile_suffix (· == chrSlash) (l := tail)).length_le
        rw [List.length_append, List.length_cons] at small
        have length : (cutRun tail).length ≤ tail.length := cut
        omega
      have later : ∀ {inner : Prop}, Ahead inner (cutRun tail) := ahead_cut ahead.proper ahead.runless
      rw [namedParts_cons clear, ← namedParts_cutRun tail] at climbs
      by_cases dot : part = [chrDot]
      · rw [if_neg (fun both => both.2 dot)] at climbs
        have start : stackText rooted stack ≠ [] → tail.head? ≠ some chrSlash := by
          intro inner slash
          apply ahead.behind inner
          cases tail with
          | nil => cases slash
          | cons c rest =>
            have same : c = chrSlash := by simpa using slash
            rw [dot, same]
            exact ⟨rest, rfl⟩
        obtain ⟨result, leads, normal⟩ := ih shorter stacked bottom later climbs
        refine ⟨result, .next ?_ leads, normal⟩
        rw [dot]
        exact canonicalizeStep_dot_part start
      rw [if_pos ⟨empty, dot⟩] at climbs
      by_cases dots : part = [chrDot, chrDot]
      · rw [dots] at climbs ahead ⊢
        cases stack with
        | nil =>
          cases first with
          | false => cases climbs
          | true =>
            have unrooted := (bottom rfl).2
            have climbs : climbParts false [[chrDot, chrDot]] (namedParts (cutRun tail)) = some final := climbs
            have stacked : Stacked rooted [[chrDot, chrDot]] := by
              rw [unrooted]
              exact ⟨by decide, by decide, by decide, by decide⟩
            obtain ⟨result, leads, normal⟩ := ih shorter stacked (fun never => by cases never) later climbs
            rw [unrooted] at leads ⊢
            have step := @canonicalizeStep_part [] [chrDot, chrDot] tail (by decide) (by decide) fun _ => rfl
            rw [unrooted] at normal
            exact ⟨result, .next step leads, normal⟩
        | cons top below =>
          rw [climbParts_pop] at climbs
          by_cases kept : top = [chrDot, chrDot]
          · rw [if_pos kept] at climbs
            cases climbs
          · rw [if_neg kept] at climbs
            obtain ⟨result, leads, normal⟩ := ih shorter stacked.pop (fun never => by cases never) later climbs
            have step := @canonicalizeStep_dots_part rooted below top (stacked.clear top List.mem_cons_self)
              (chrSlash :: tail) (Or.inr ⟨tail, rfl⟩)
            simp only [List.cons_ne_nil, false_and, if_false, List.tail_cons, List.take_length] at step
            exact ⟨result, .next step leads, normal⟩
      · rw [climbParts_push dots] at climbs
        obtain ⟨result, leads, normal⟩ :=
          ih shorter (stacked.push ⟨empty, dot⟩ proper dots) (fun never => by cases never) later climbs
        have step := @canonicalizeStep_part (stackText rooted stack) part tail proper dot fun never => absurd never dots
        rw [stackText_cons, List.append_assoc, List.append_assoc, List.singleton_append] at leads
        exact ⟨result, .next step leads, normal⟩

theorem canonicalizePathname_normal (proper : (0 : UInt8) ∉ path) (runless : ¬ ascii "/.//" <:+: path)
    (climbs : climbParts (!isRooted path) [] (namedParts path) = some final) :
    Normal (isRooted path) final (canonicalizePathname path) := by
  have empty : ∀ rooted, Stacked rooted [] := by
    intro rooted
    constructor
    · intro part member
      cases member
    · intro part member
      cases member
    · intro part member
      cases member
    · intro rooted part member
      cases member
  have leads : ∃ result, Canonicalizes path 0 result ∧ Normal (isRooted path) final result := by
    cases root : isRooted path with
    | false =>
      rw [root] at climbs
      have start : path.head? ≠ some chrSlash := by simpa [isRooted] using root
      exact canonicalizes_normal path.length (Nat.le_refl _) (empty false) (fun _ => ⟨rfl, rfl⟩)
        ⟨proper, start, runless, fun inner => absurd rfl inner⟩ climbs
    | true =>
      rw [root] at climbs
      obtain ⟨tail, rfl⟩ : ∃ tail, path = [] ++ chrSlash :: tail := by
        cases path with
        | nil => cases root
        | cons c tail =>
          have same : c = chrSlash := by simpa [isRooted] using root
          exact ⟨tail, by rw [same]; rfl⟩
      rw [namedParts_cons (by simp), if_neg (by simp), ← namedParts_cutRun tail] at climbs
      obtain ⟨result, leads, normal⟩ := canonicalizes_normal (cutRun tail).length (Nat.le_refl _) (empty true)
        (fun never => by cases never) (ahead_cut proper runless) climbs
      have step := @canonicalizeStep_part [] [] tail (by simp) (by simp) fun never => by cases never
      exact ⟨result, .next step leads, normal⟩
  obtain ⟨result, leads, normal⟩ := leads
  rw [canonicalizePathname, leads.loop (by omega)]
  exact normal

/-- A path in which no `/.//` stands, and no `..` has nothing to take away, is put in normal form. -/
theorem makePathNameCanonical_normal (proper : (0 : UInt8) ∉ path) (runless : ¬ ascii "/.//" <:+: path)
    {stack : List Bytes} (climbs : segmentStack path = some stack) :
    ∃ result, makePathNameCanonical path = some result ∧ namedParts result = stack ∧
      isRooted result = isRooted path ∧ Settled result := by
  obtain ⟨final, led, rfl⟩ := Option.map_eq_some_iff.mp climbs
  have normal := canonicalizePathname_normal proper runless led
  exact ⟨canonicalizePathname path, makePathNameCanonical_eq path, normal.parts, normal.rooted, normal.settled⟩

/-- The same with the offsets in an `int`, for a path that is shorter than 2^31 bytes. -/
theorem makePathNameCanonicalInt_normal {path : Bytes} (small : path.length < 2 ^ 31) (proper : (0 : UInt8) ∉ path)
    (runless : ¬ ascii "/.//" <:+: path) {stack : List Bytes} (climbs : segmentStack path = some stack) :
    ∃ result, makePathNameCanonicalInt path = some result ∧ namedParts result = stack ∧
      isRooted result = isRooted path ∧ Settled result := by
  rw [makePathNameCanonicalInt_eq small]
  exact makePathNameCanonical_normal proper runless climbs

theorem makePathNameCanonicalInt_normal_relative :
    ∃ result, makePathNameCanonicalInt (ascii "..//a/./b/../") = some result ∧
      namedParts result = [ascii "..", ascii "a"] ∧
        isRooted result = isRooted (ascii "..//a/./b/../") ∧ Settled result :=
  makePathNameCanonicalInt_normal (by decide) (by decide) (by decide +kernel) (by decide +kernel)

/-- Where the offset of the first slash does not fit an `int`, the walk ends at once. -/
theorem makePathNameCanonicalInt_long {c : UInt8} {name tail : Bytes} (present : c ≠ 0) (dot : c ≠ chrDot)
    (clear : chrSlash ∉ c :: name) (long : (c :: name).length = 2 ^ 31) :
    makePathNameCanonicalInt (c :: name ++ chrSlash :: tail) = some (c :: name ++ chrSlash :: tail) := by
  have found : findNextSlash (c :: name ++ chrSlash :: tail) 0 = some (2 ^ 31) := by
    rw [← long]
    simpa using findNextSlash_append [] (c :: name) tail clear
  have negative : intOffset (2 ^ 31) = none := by decide
  have advance : canonicalizeAdvanceAsserted intOffset (c :: name ++ chrSlash :: tail) 0 =
      some (.done (c :: name ++ chrSlash :: tail)) := by
    rw [canonicalizeAdvanceAsserted, findNextSlashAsserted, if_pos (Nat.zero_le _), found, Option.bind_some, negative]
    rfl
  have first : byteAt (c :: name ++ chrSlash :: tail) 0 = c := rfl
  have step : canonicalizeStepAsserted intOffset (c :: name ++ chrSlash :: tail) 0 =
      some (.done (c :: name ++ chrSlash :: tail)) := by
    rw [canonicalizeStepAsserted, first, if_neg present, if_neg dot, advance]
  rw [makePathNameCanonicalInt, canonicalizeLoopAsserted, step]
  rfl

/-- The `.` behind a name of 2^31 bytes stays. -/
theorem makePathNameCanonicalInt_keeps_dot {name : Bytes} (plain : ∀ c ∈ name, c = 97)
    (long : name.length + 1 = 2 ^ 31) (shape : path = 97 :: name ++ ascii "/./b") :
    (0 : UInt8) ∉ path ∧ ¬ ascii "/.//" <:+: path ∧
      (segmentStack path).isSome ∧ makePathNameCanonicalInt path = some path ∧ ¬ Settled path := by
  have letters : ∀ c ∈ 97 :: name, c = 97 := by
    rintro c (_ | ⟨_, member⟩)
    · rfl
    · exact plain c member
  have clear : chrSlash ∉ 97 :: name := fun slash => by cases letters _ slash
  have parts : segments path = [97 :: name, [chrDot], ascii "b"] := by
    rw [shape]
    exact segments_cons clear (ascii "./b")
  have other : ∀ front : Bytes, 97 :: name ≠ chrDot :: front := by
    intro front same
    cases (List.cons.inj same).1
  refine ⟨fun zero => ?_, fun run => ?_, ?_, ?_, fun settled => settled.1 ?_⟩
  · rw [shape, List.mem_append] at zero
    obtain never | never := zero
    · cases letters _ never
    · exact absurd never (by decide)
  · -- there are two slashes
    have fewer := run.sublist.count_le chrSlash
    rw [shape, List.count_append, List.count_eq_zero.mpr clear] at fewer
    exact absurd fewer (by decide)
  · have named : namedParts path = [97 :: name, ascii "b"] := by
      rw [namedParts, parts]
      simp [other]
      decide
    have unrooted : isRooted path = false := by
      rw [shape]
      rfl
    rw [segmentStack, named, unrooted, climbParts_push (other _), climbParts_push (by decide)]
    rfl
  · rw [shape]
    exact makePathNameCanonicalInt_long (by decide) (by decide) clear long
  · rw [parts]
    exact List.mem_cons_of_mem _ List.mem_cons_self

/-- A name of 2^31 bytes and `/./b` behind it. -/
def farPath : Bytes := 97 :: List.replicate (2 ^ 31 - 1) 97 ++ ascii "/./b"

theorem makePathNameCanonicalInt_far : (0 : UInt8) ∉ farPath ∧ ¬ ascii "/.//" <:+: farPath ∧
    (segmentStack farPath).isSome ∧ makePathNameCanonicalInt farPath = some farPath ∧ ¬ Settled farPath :=
  makePathNameCanonicalInt_keeps_dot (fun _ member => List.eq_of_mem_replicate member)
    (by
      rw [List.length_replicate, Nat.sub_add_cancel]
      decide) rfl

end Normalize

end GnomeVfs
