import GnomeVfs.CanonicalizeFixed
import GnomeVfs.UriRelative
import Mathlib.Data.List.TakeWhile

/- The references that `remove_internal_relative_components` reduces as it is meant to. -/
namespace GnomeVfs.Parents

def dot : Bytes := [chrDot]

def dots : Bytes := [chrDot, chrDot]

/-- What becomes of a segment. -/
inductive Fate where
  | drop | cancel | keep
  deriving DecidableEq

/-- The text of segments, of which the last one comes first, each with the slash behind it. -/
def leave (stack : List Bytes) : Bytes := stack.reverse.flatMap (· ++ [chrSlash])

/-- A `..` cancels the nearest segment in front of it that is there still and is no `..` itself. -/
def fate (stack : List Bytes) (segment : Bytes) : Fate :=
  if segment = dot then .drop
  else if segment = dots ∧ stack.any (· ≠ dots) then .cancel
  else .keep

def cancelDots (stack : List Bytes) (segment : Bytes) : List Bytes :=
  match fate stack segment with
  | .drop => stack
  | .cancel => stack.eraseP (· ≠ dots)
  | .keep => segment :: stack

def withoutDotsFrom (stack : List Bytes) : List Bytes → Bytes
  | [] => leave stack
  | [last] => if fate stack last = .keep then leave stack ++ last else leave (cancelDots stack last)
  | segment :: rest => withoutDotsFrom (cancelDots stack segment) rest

/-- The reference that is meant: its `.` are dropped, and each `..` that can is cancelled. -/
def withoutDots (uri : Bytes) : Bytes := withoutDotsFrom [] (segments uri)

/-- The segments in front of the current one that are there still. -/
structure Uncancelled where
  /-- The nearest one first. -/
  stack : List Bytes
  /-- The length of the segment that was kept last. -/
  length : Nat
  /-- An empty first segment is all that a cancellation has left. -/
  stray : Bool

namespace Uncancelled

/-- Whether the source takes the previous segment for a `..`, or finds none. -/
def keepsDots (u : Uncancelled) : Bool :=
  u.stack = [] || (u.length = 2 && (u.stray || dots.isPrefixOf (u.stack.headD [])))

/-- What becomes of a segment in the source. -/
def fate (u : Uncancelled) (segment : Bytes) : Fate :=
  if segment = dot then .drop
  else if segment = dots ∧ u.keepsDots = false then .cancel
  else .keep

def keep (u : Uncancelled) (segment : Bytes) : Uncancelled := ⟨segment :: u.stack, segment.length, false⟩

/-- The length is not the one of the segment that is the last one now. -/
def cancel (u : Uncancelled) : Uncancelled := ⟨u.stack.tail, u.length, u.stack.tail = [[]]⟩

/-- What is left when a `..` cancels. From an empty first segment, the source goes back to the current one,
which is all that is taken away. -/
def withoutPrevious (u : Uncancelled) : Uncancelled := if u.stray then u else u.cancel

def turn (u : Uncancelled) (segment : Bytes) : Uncancelled :=
  match u.fate segment with
  | .drop => u
  | .cancel => u.withoutPrevious
  | .keep => u.keep segment

def textFrom (u : Uncancelled) : List Bytes → Bytes
  | [] => leave u.stack
  | [last] => if u.fate last = .keep then leave u.stack ++ last else leave (u.turn last).stack
  | segment :: rest => (u.turn segment).textFrom rest

/-- What the source has for the start of the previous segment. -/
def previous (u : Uncancelled) : Option Nat :=
  if u.stack = [] then none else if u.stray then some 1 else some (leave u.stack.tail).length

end Uncancelled

@[simp] theorem leave_nil : leave [] = [] := rfl

theorem leave_cons (segment : Bytes) (stack : List Bytes) : leave (segment :: stack) = leave stack ++ segment ++ [chrSlash] := by
  simp [leave]

variable {stack : List Bytes}

theorem leave_eq_nil : (leave stack).length = 0 ↔ stack = [] := by
  cases stack with
  | nil => simp
  | cons segment stack => simp [leave_cons]

theorem leave_length_one : (leave stack).length = 1 ↔ stack = [[]] := by
  cases stack with
  | nil => simp
  | cons segment stack =>
    rw [leave_cons, List.length_append, List.length_append, List.length_singleton, List.cons.injEq, ← leave_eq_nil,
      ← List.length_eq_zero_iff]
    omega

theorem segmentStart_eq {uri : Bytes} {start stop : Nat}
    (clear : ∀ i, start ≤ i → i < stop → byteAt uri i ≠ chrSlash)
    (edge : ∀ i, i + 1 = start → byteAt uri i = chrSlash) (q : Nat) (within : start ≤ q + 1) (below : q < stop) :
    segmentStart uri q = start := by
  induction q with
  | zero =>
    rw [segmentStart]
    rcases Nat.lt_or_ge 0 start with behind | here
    · rw [if_pos (edge 0 (by omega))]
      omega
    · rw [if_neg (clear 0 here below)]
      omega
  | succ q ih =>
    rw [segmentStart]
    rcases Nat.lt_or_ge (q + 1) start with behind | here
    · rw [if_pos (edge (q + 1) (by omega))]
      omega
    · rw [if_neg (clear (q + 1) here below)]
      exact ih here (by omega)

variable {i : Nat}

theorem byteAt_append_left {front back : Bytes} (inside : i < front.length) :
    byteAt (front ++ back) i = byteAt front i := by
  simp only [byteAt, List.getD_eq_getElem?_getD, List.getElem?_append_left inside]

theorem byteAt_mem {s : Bytes} (inside : i < s.length) : byteAt s i ∈ s := by
  rw [byteAt, List.getD_eq_getElem?_getD, List.getElem?_eq_getElem inside]
  exact List.getElem_mem inside

theorem byteAt_leave (last : i + 1 = (leave stack).length) (back : Bytes) :
    byteAt (leave stack ++ back) i = chrSlash := by
  cases stack with
  | nil => simp at last
  | cons segment stack =>
    rw [leave_cons, List.length_append, List.length_singleton] at last
    have place : i = (leave stack ++ segment).length + 0 := by omega
    rw [place, leave_cons, List.append_assoc, byteAt_append]
    rfl

/-- The segment in front of the one behind these segments. -/
theorem previousSegment_leave (stack : List Bytes) (back : Bytes) (clear : ∀ segment ∈ stack, chrSlash ∉ segment) :
    previousSegment (leave stack ++ back) (leave stack).length =
      if stack = [] then none else if stack = [[]] then some 1 else some (leave stack.tail).length := by
  rw [previousSegment]
  cases stack with
  | nil => rfl
  | cons segment stack =>
    have some_left : (leave (segment :: stack)).length ≠ 0 := fun none_left => by
      have := leave_eq_nil.mp none_left
      contradiction
    rw [if_neg some_left, if_neg (List.cons_ne_nil _ _)]
    split
    · rename_i two
      have not_one : ¬ segment :: stack = [[]] := fun one => by
        have := leave_length_one.mpr one
        omega
      have long : (leave (segment :: stack)).length = (leave stack).length + segment.length + 1 := by
        rw [leave_cons, List.length_append, List.length_append, List.length_singleton]
      rw [if_neg not_one, List.tail_cons, long, leave_cons, List.append_assoc, List.append_assoc]
      congr 1
      refine @segmentStart_eq _ (leave stack).length ((leave stack).length + segment.length) (fun i from_start below => ?_)
        (fun i last => byteAt_leave last _) _ (by omega) (by omega)
      obtain ⟨j, rfl⟩ := Nat.exists_eq_add_of_le from_start
      rw [byteAt_append, byteAt_append_left (by omega)]
      exact fun slash => clear segment List.mem_cons_self (slash ▸ byteAt_mem (by omega))
    · rename_i one
      have short : (leave (segment :: stack)).length = 1 := by omega
      rw [if_pos (leave_length_one.mp short), short]

/-- The state of the source in front of a rest of the reference. -/
structure Reads (s : RelativeState) (u : Uncancelled) (rest : Bytes) : Prop where
  uri : s.uri = leave u.stack ++ rest
  cur : s.segmentCur = (leave u.stack).length
  prev : s.segmentPrev = u.previous
  len : s.lenPrev = u.length

structure Uncancelled.Proper (u : Uncancelled) : Prop where
  clear : ∀ segment ∈ u.stack, chrSlash ∉ segment
  stray : u.stray = true → u.stack = [[]]

theorem eq_dot_iff {part : Bytes} {more : Bytes} : part = dot ↔ part.length = 1 ∧ byteAt (part ++ more) 0 = chrDot := by
  constructor
  · rintro rfl
    exact ⟨rfl, rfl⟩
  · rintro ⟨one, first⟩
    obtain ⟨c, rfl⟩ := List.length_eq_one_iff.mp one
    have same : c = chrDot := first
    rw [same, dot]

theorem eq_dots_iff {part : Bytes} {more : Bytes} :
    part = dots ↔ part.length = 2 ∧ byteAt (part ++ more) 0 = chrDot ∧ byteAt (part ++ more) 1 = chrDot := by
  constructor
  · rintro rfl
    exact ⟨rfl, rfl, rfl⟩
  · rintro ⟨two, first, second⟩
    obtain ⟨c, d, rfl⟩ := List.length_eq_two.mp two
    have same : c = chrDot := first
    have same' : d = chrDot := second
    rw [same, same', dots]

theorem dots_prefix_iff {part : Bytes} {more : Bytes} : dots.isPrefixOf part = true ↔
    byteAt (part ++ chrSlash :: more) 0 = chrDot ∧ byteAt (part ++ chrSlash :: more) 1 = chrDot := by
  cases part with
  | nil => exact ⟨fun wrong => (by simp [dots] at wrong), fun wrong => absurd wrong.1 (by decide : chrSlash ≠ chrDot)⟩
  | cons c part =>
    cases part with
    | nil => exact ⟨fun wrong => (by simp [dots] at wrong), fun wrong => absurd wrong.2 (by decide : chrSlash ≠ chrDot)⟩
    | cons d part =>
      have first : byteAt (c :: d :: part ++ chrSlash :: more) 0 = c := rfl
      have second : byteAt (c :: d :: part ++ chrSlash :: more) 1 = d := rfl
      rw [first, second, dots, List.isPrefixOf_cons_cons, List.isPrefixOf_cons_cons, List.isPrefixOf_nil_left, Bool.and_true,
        Bool.and_eq_true, beq_iff_eq, beq_iff_eq, eq_comm, @eq_comm _ chrDot d]

section Round

variable {s : RelativeState} {u : Uncancelled} {part more : Bytes}

theorem Reads.bytes (reads : Reads s u part) (i : Nat) : byteAt s.uri (s.segmentCur + i) = byteAt part i := by
  rw [reads.uri, reads.cur, byteAt_append]

theorem Reads.lenCur (reads : Reads s u (part ++ more)) (clear : chrSlash ∉ part)
    (ends : more = [] ∨ ∃ tail, more = chrSlash :: tail) : segmentLength s.uri s.segmentCur = part.length := by
  have whole : part.takeWhile (· != chrSlash) = part :=
    List.takeWhile_eq_self_iff.mpr fun c inside => bne_iff_ne.mpr fun slash => clear (slash ▸ inside)
  have stops : more.takeWhile (· != chrSlash) = [] := by
    rcases ends with rfl | ⟨tail, rfl⟩
    · rfl
    · exact List.takeWhile_cons_of_neg (by simp)
  rw [segmentLength, reads.uri, reads.cur, List.drop_left, List.takeWhile_append, whole, if_pos rfl, stops,
    List.append_nil]

/-- Whether the source keeps a `..` that is the current segment. -/
theorem Reads.keepsDots_iff (reads : Reads s u (dots ++ more)) (proper : u.Proper) :
    u.keepsDots = true ↔ ∀ p, s.segmentPrev = some p →
      s.lenPrev = 2 ∧ byteAt s.uri p = chrDot ∧ byteAt s.uri (p + 1) = chrDot := by
  rw [reads.prev, reads.len, Uncancelled.previous, Uncancelled.keepsDots]
  cases there : u.stack with
  | nil => simp
  | cons top below =>
    rw [if_neg (List.cons_ne_nil _ _)]
    cases first : u.stray with
    | true =>
      -- The previous segment is the current one.
      have only := proper.stray first
      have here : s.segmentCur = 1 := by rw [reads.cur, only]; rfl
      have bytes : byteAt s.uri 1 = chrDot ∧ byteAt s.uri 2 = chrDot := by
        have one := reads.bytes 0
        have two := reads.bytes 1
        rw [here] at one two
        exact ⟨one, two⟩
      simp [bytes]
    | false =>
      have text : s.uri = leave below ++ (top ++ chrSlash :: (dots ++ more)) := by
        rw [reads.uri, there, leave_cons]
        simp
      have top_bytes : ∀ i, byteAt s.uri ((leave below).length + i) =
          byteAt (top ++ chrSlash :: (dots ++ more)) i := fun i => by
        rw [text, byteAt_append]
      have at_start := top_bytes 0
      rw [Nat.add_zero] at at_start
      have parent := @dots_prefix_iff top (dots ++ more)
      rw [← at_start, ← top_bytes 1] at parent
      simp [parent]

theorem Reads.present (reads : Reads s u (part ++ more)) (proper : (0 : UInt8) ∉ part)
    (ends : more = [] ∨ ∃ tail, more = chrSlash :: tail) :
    byteAt s.uri s.segmentCur = 0 ↔ part = [] ∧ more = [] := by
  have first := reads.bytes 0
  rw [Nat.add_zero] at first
  rw [first]
  cases part with
  | nil =>
    rcases ends with rfl | ⟨tail, rfl⟩
    · exact ⟨fun _ => ⟨rfl, rfl⟩, fun _ => rfl⟩
    · exact ⟨fun wrong => absurd wrong (by decide : chrSlash ≠ 0), fun wrong => absurd wrong.2 (List.cons_ne_nil _ _)⟩
  | cons c part =>
    exact ⟨fun zero => absurd (zero ▸ List.mem_cons_self : (0 : UInt8) ∈ c :: part) proper, fun wrong => absurd wrong.1 (List.cons_ne_nil _ _)⟩

theorem Reads.behind (reads : Reads s u (part ++ more)) (ends : more = [] ∨ ∃ tail, more = chrSlash :: tail) :
    byteAt s.uri (s.segmentCur + part.length) = 0 ↔ more = [] := by
  have next := byteAt_append part more 0
  rw [Nat.add_zero] at next
  rw [reads.bytes, next]
  rcases ends with rfl | ⟨tail, rfl⟩
  · exact ⟨fun _ => rfl, fun _ => rfl⟩
  · exact ⟨fun wrong => absurd wrong (by decide : chrSlash ≠ 0), fun wrong => absurd wrong (List.cons_ne_nil _ _)⟩

theorem Reads.here (reads : Reads s u (part ++ more)) (zero : (0 : UInt8) ∉ part)
    (ends : more = [] ∨ ∃ tail, more = chrSlash :: tail) (some_part : part ≠ []) : byteAt s.uri s.segmentCur ≠ 0 :=
  fun none => some_part ((reads.present zero ends).mp none).1

theorem Reads.dot_iff (reads : Reads s u (part ++ more)) (clear : chrSlash ∉ part)
    (ends : more = [] ∨ ∃ tail, more = chrSlash :: tail) :
    segmentLength s.uri s.segmentCur = 1 ∧ byteAt s.uri s.segmentCur = chrDot ↔ part = dot := by
  have first := reads.bytes 0
  rw [Nat.add_zero] at first
  rw [reads.lenCur clear ends, first]
  exact eq_dot_iff.symm

theorem Reads.dots_iff (reads : Reads s u (part ++ more)) (clear : chrSlash ∉ part)
    (ends : more = [] ∨ ∃ tail, more = chrSlash :: tail) :
    segmentLength s.uri s.segmentCur = 2 ∧ byteAt s.uri s.segmentCur = chrDot ∧ byteAt s.uri (s.segmentCur + 1) = chrDot ↔
      part = dots := by
  have first := reads.bytes 0
  rw [Nat.add_zero] at first
  rw [reads.lenCur clear ends, first, reads.bytes 1]
  exact eq_dots_iff.symm

/-- A `.` is taken out. -/
theorem Reads.round_drop (reads : Reads s u (dot ++ more)) (ends : more = [] ∨ ∃ tail, more = chrSlash :: tail) :
    relativeStep s = if more = [] then .done (s.uri.take s.segmentCur)
      else .next ⟨s.uri.take s.segmentCur ++ s.uri.drop (s.segmentCur + 2), s.segmentCur, s.segmentPrev, s.lenPrev, s.ordered⟩ := by
  have clear : chrSlash ∉ dot := by decide
  have behind := reads.behind ends
  rw [relativeStep, if_neg (reads.here (by decide) ends (by decide)), if_pos ((reads.dot_iff clear ends).mpr rfl)]
  exact if_congr behind rfl rfl

/-- A `..` takes the previous segment out. -/
theorem Reads.round_cancel (reads : Reads s u (dots ++ more)) (proper : u.Proper) (cancels : u.keepsDots = false)
    (ends : more = [] ∨ ∃ tail, more = chrSlash :: tail) :
    ∃ p, u.previous = some p ∧ relativeStep s = if more = [] then .done (s.uri.take p)
      else .next ⟨s.uri.take p ++ s.uri.drop (s.segmentCur + 3), p, previousSegment s.uri p, s.lenPrev, fun _ => previousSegment_le⟩ := by
  have clear : chrSlash ∉ dots := by decide
  have behind := reads.behind ends
  have keeps := reads.keepsDots_iff proper
  rw [cancels] at keeps
  cases back : s.segmentPrev with
  | none => exact absurd (keeps.mpr fun p found => by rw [back] at found; cases found) Bool.false_ne_true
  | some p =>
    refine ⟨p, reads.prev ▸ back, ?_⟩
    have no_parent : ¬ (s.lenPrev = 2 ∧ byteAt s.uri p = chrDot ∧ byteAt s.uri (p + 1) = chrDot) := fun parent =>
      Bool.false_ne_true (keeps.mpr fun q found => by rw [back] at found; cases found; exact parent)
    have no_dot : ¬ (segmentLength s.uri s.segmentCur = 1 ∧ byteAt s.uri s.segmentCur = chrDot) := fun one =>
      absurd ((reads.dot_iff clear ends).mp one) (by decide)
    rw [relativeStep, if_neg (reads.here (by decide) ends (by decide)), if_neg no_dot, if_pos ((reads.dots_iff clear ends).mpr rfl)]
    simp only [back, if_neg no_parent]
    exact if_congr behind rfl rfl

/-- Any other segment is passed. -/
theorem Reads.round_keep (reads : Reads s u (part ++ more)) (proper : u.Proper) (clear : chrSlash ∉ part)
    (zero : (0 : UInt8) ∉ part) (ends : more = [] ∨ ∃ tail, more = chrSlash :: tail) (kept : u.fate part = .keep) :
    relativeStep s = if more = [] then .done s.uri
      else .next ⟨s.uri, s.segmentCur + part.length + 1, some s.segmentCur, part.length, fun _ => current_le⟩ := by
  have length := reads.lenCur clear ends
  have behind := reads.behind ends
  rw [← length] at behind
  have no_dot : ¬ (segmentLength s.uri s.segmentCur = 1 ∧ byteAt s.uri s.segmentCur = chrDot) := fun one => by
    rw [reads.dot_iff clear ends] at one
    simp [Uncancelled.fate, one] at kept
  simp only [← length]
  by_cases over_text : byteAt s.uri s.segmentCur = 0
  · rw [relativeStep, if_pos over_text, if_pos ((reads.present zero ends).mp over_text).2]
  by_cases two : segmentLength s.uri s.segmentCur = 2 ∧ byteAt s.uri s.segmentCur = chrDot ∧ byteAt s.uri (s.segmentCur + 1) = chrDot
  · obtain rfl := (reads.dots_iff clear ends).mp two
    have keeps : u.keepsDots = true := by
      cases decided : u.keepsDots with
      | true => rfl
      | false => exact absurd kept (by simp [Uncancelled.fate, decided, (by decide : dots ≠ dot)])
    rw [relativeStep, if_neg over_text, if_neg no_dot, if_pos two]
    cases back : s.segmentPrev with
    | none => exact if_congr behind rfl rfl
    | some p =>
      simp only [if_pos ((reads.keepsDots_iff proper).mp keeps p back)]
      exact if_congr behind rfl rfl
  · rw [relativeStep, if_neg over_text, if_neg no_dot, if_neg two]
    exact if_congr behind rfl rfl

theorem Uncancelled.fate_dots (u : Uncancelled) : u.fate dots = if u.keepsDots then .keep else .cancel := by
  cases decided : u.keepsDots with
  | true => simp [Uncancelled.fate, decided, (by decide : dots ≠ dot)]
  | false => simp [Uncancelled.fate, decided, (by decide : dots ≠ dot)]

theorem Uncancelled.fate_other (u : Uncancelled) (no_dot : part ≠ dot) (no_dots : part ≠ dots) : u.fate part = .keep := by
  simp [Uncancelled.fate, no_dot, no_dots]

theorem eq_dot_of_drop (becomes : u.fate part = .drop) : part = dot := by
  by_contra no_dot
  rw [Uncancelled.fate, if_neg no_dot] at becomes
  split at becomes <;> cases becomes

theorem eq_dots_of_cancel (becomes : u.fate part = .cancel) : part = dots ∧ u.keepsDots = false := by
  rw [Uncancelled.fate] at becomes
  split at becomes
  · cases becomes
  · split at becomes
    · rename_i both
      exact both
    · cases becomes

theorem Uncancelled.Proper.withoutPrevious (proper : u.Proper) : u.withoutPrevious.Proper := by
  rw [Uncancelled.withoutPrevious]
  split
  · exact proper
  · exact ⟨fun segment there => proper.clear segment (List.mem_of_mem_tail there), of_decide_eq_true⟩

theorem Uncancelled.Proper.turn (proper : u.Proper) (clear : chrSlash ∉ part) : (u.turn part).Proper := by
  rw [Uncancelled.turn]
  cases u.fate part with
  | drop => exact proper
  | cancel => exact proper.withoutPrevious
  | keep =>
    refine ⟨fun segment there => ?_, fun wrong => absurd wrong Bool.false_ne_true⟩
    rcases List.mem_cons.mp there with rfl | before
    · exact clear
    · exact proper.clear segment before

theorem Uncancelled.Proper.previous_start {p : Nat} (proper : u.Proper) (back : u.previous = some p) (rest : Bytes) :
    ∃ others, leave u.stack ++ rest = leave u.withoutPrevious.stack ++ others ∧ p = (leave u.withoutPrevious.stack).length := by
  rw [Uncancelled.previous] at back
  rw [Uncancelled.withoutPrevious]
  split at back
  · cases back
  · rename_i some_stack
    split at back
    · rename_i stray
      obtain rfl := Option.some.inj back
      rw [if_pos stray]
      exact ⟨rest, rfl, by rw [proper.stray stray]; rfl⟩
    · rename_i not_stray
      obtain rfl := Option.some.inj back
      rw [if_neg not_stray]
      obtain ⟨top, below, there⟩ := List.exists_cons_of_ne_nil some_stack
      refine ⟨top ++ chrSlash :: rest, ?_, rfl⟩
      rw [Uncancelled.cancel, there, leave_cons]
      simp

theorem Uncancelled.Proper.previous_again {p : Nat} (proper : u.Proper) (back : u.previous = some p) (rest : Bytes) :
    previousSegment (leave u.stack ++ rest) p = u.withoutPrevious.previous := by
  obtain ⟨others, text, start⟩ := proper.previous_start back rest
  rw [text, start, previousSegment_leave _ _ proper.withoutPrevious.clear, Uncancelled.previous]
  refine if_ctx_congr Iff.rfl (fun _ => rfl) fun some_left => if_congr ?_ rfl rfl
  rw [Uncancelled.previous] at back
  rw [Uncancelled.withoutPrevious]
  by_cases stray : u.stray = true
  · rw [if_pos stray]
    exact ⟨fun _ => stray, fun _ => proper.stray stray⟩
  · rw [if_neg stray]
    exact decide_eq_true_iff.symm

/-- The source goes on with the rest. -/
theorem Reads.next {tail : Bytes} (reads : Reads s u (part ++ chrSlash :: tail)) (proper : u.Proper)
    (clear : chrSlash ∉ part) (zero : (0 : UInt8) ∉ part) :
    ∃ t, relativeStep s = .next t ∧ Reads t (u.turn part) tail := by
  have ends : chrSlash :: tail = [] ∨ ∃ rest, chrSlash :: tail = chrSlash :: rest := Or.inr ⟨tail, rfl⟩
  rw [Uncancelled.turn]
  cases becomes : u.fate part with
  | drop =>
    obtain rfl := eq_dot_of_drop becomes
    refine ⟨_, (reads.round_drop ends).trans (if_neg (List.cons_ne_nil _ _)), ?_, reads.cur, reads.prev, reads.len⟩
    dsimp only
    rw [reads.uri, reads.cur, List.take_left, ← List.drop_drop, List.drop_left]
    rfl
  | cancel =>
    obtain ⟨rfl, cancels⟩ := eq_dots_of_cancel becomes
    obtain ⟨p, back, round⟩ := reads.round_cancel proper cancels ends
    obtain ⟨others, text, start⟩ := proper.previous_start back (dots ++ chrSlash :: tail)
    have rest : s.uri.drop (s.segmentCur + 3) = tail := by
      rw [reads.uri, reads.cur, ← List.drop_drop, List.drop_left]
      rfl
    have length : u.withoutPrevious.length = u.length := by
      rw [Uncancelled.withoutPrevious]
      split <;> rfl
    refine ⟨_, round.trans (if_neg (List.cons_ne_nil _ _)), ?_, start, ?_, reads.len.trans length.symm⟩
    · dsimp only
      rw [rest, reads.uri, text, start, List.take_left]
    · dsimp only
      rw [reads.uri]
      exact proper.previous_again back _
  | keep =>
    refine ⟨_, (reads.round_keep proper clear zero ends becomes).trans (if_neg (List.cons_ne_nil _ _)), ?_, ?_, ?_, rfl⟩
    · rw [reads.uri, Uncancelled.keep, leave_cons]
      simp
    · rw [reads.cur, Uncancelled.keep, leave_cons, List.length_append, List.length_append]
      rfl
    · rw [reads.cur]
      simp [Uncancelled.previous, Uncancelled.keep]

theorem Reads.last (reads : Reads s u part) (proper : u.Proper) (clear : chrSlash ∉ part) (zero : (0 : UInt8) ∉ part) :
    relativeStep s = .done (u.textFrom [part]) := by
  rw [← List.append_nil part] at reads
  have ends : ([] : Bytes) = [] ∨ ∃ rest, ([] : Bytes) = chrSlash :: rest := Or.inl rfl
  rw [Uncancelled.textFrom, Uncancelled.turn]
  cases becomes : u.fate part with
  | drop =>
    obtain rfl := eq_dot_of_drop becomes
    rw [reads.round_drop ends, if_pos rfl, reads.uri, reads.cur, List.take_left]
    rfl
  | cancel =>
    obtain ⟨rfl, cancels⟩ := eq_dots_of_cancel becomes
    obtain ⟨p, back, round⟩ := reads.round_cancel proper cancels ends
    obtain ⟨others, text, start⟩ := proper.previous_start back (dots ++ [])
    rw [round, if_pos rfl, reads.uri, text, start, List.take_left]
    rfl
  | keep =>
    rw [reads.round_keep proper clear zero ends becomes, if_pos rfl, reads.uri, List.append_nil]
    rfl

end Round

theorem relativeLoop_text (fuel : Nat) : ∀ {s : RelativeState} {u : Uncancelled} {rest : Bytes}, Reads s u rest → u.Proper →
    (0 : UInt8) ∉ rest → s.left < fuel → relativeLoop fuel s = u.textFrom (segments rest) := by
  induction fuel with
  | zero =>
    intro s u rest reads proper zero enough
    omega
  | succ fuel ih =>
    intro s u rest reads proper zero enough
    rw [relativeLoop]
    rcases path_cases rest with clear | ⟨part, tail, rfl, clear⟩
    · rw [reads.last proper clear zero, segments_of_no_slash clear]
    · have no_zero : (0 : UInt8) ∉ part := fun inside => zero (List.mem_append_left _ inside)
      obtain ⟨t, step, reads'⟩ := reads.next proper clear no_zero
      have := relativeStep_left step
      rw [step, segments_cons clear]
      dsimp only
      rw [ih reads' (proper.turn clear) (fun inside => zero (List.mem_append_right _ (List.mem_cons_of_mem _ inside))) (by omega)]
      cases rest : segments tail with
      | nil => exact absurd rest (segments_ne_nil tail)
      | cons segment others => rfl

def nothingYet : Uncancelled := ⟨[], 0, false⟩

theorem removeInternalRelativeComponents_text {uri : Bytes} (proper : (0 : UInt8) ∉ uri) :
    removeInternalRelativeComponents uri = nothingYet.textFrom (segments uri) :=
  relativeLoop_text _ ⟨rfl, rfl, rfl, rfl⟩ ⟨fun _ there => absurd there List.not_mem_nil, fun wrong => absurd wrong Bool.false_ne_true⟩
    proper (Nat.lt_succ_self _)

/-- A segment as it is meant, for the same state. -/
def Uncancelled.follow (u : Uncancelled) (segment : Bytes) : Uncancelled :=
  match Parents.fate u.stack segment with
  | .drop => u
  | .cancel => ⟨u.stack.eraseP (· ≠ dots), u.length, u.stack.eraseP (· ≠ dots) = [[]]⟩
  | .keep => u.keep segment

/-- A cancellation has not left an empty first segment alone, and where the last segment that is left starts
with `..`, the one that was kept last has two bytes just when that segment is `..` itself. -/
structure Uncancelled.Recognized (u : Uncancelled) : Prop where
  notStray : u.stray = false
  parent : ∀ top, u.stack.head? = some top → dots.isPrefixOf top = true → (u.length = 2 ↔ top = dots)

/-- There is no `..` behind another segment. -/
def Normal (stack : List Bytes) : Prop := stack.Pairwise fun later earlier => later = dots → earlier = dots

variable {segment : Bytes}

theorem normal_cons_other (other : segment ≠ dots) :
    Normal (segment :: stack) ↔ Normal stack :=
  List.pairwise_cons.trans ⟨fun both => both.2, fun normal => ⟨fun _ _ same => absurd same other, normal⟩⟩

theorem Normal.fate_dots (normal : Normal stack) :
    Parents.fate stack dots = if stack = [] ∨ stack.head? = some dots then .keep else .cancel := by
  rw [Parents.fate, if_neg (by decide : dots ≠ dot)]
  cases stack with
  | nil => simp
  | cons top below =>
    by_cases parent : top = dots
    · obtain ⟨all_dots, -⟩ := List.pairwise_cons.mp normal
      have none_other : (top :: below).any (· ≠ dots) = false := by
        simp only [List.any_eq_false, decide_eq_true_eq, not_not]
        intro segment there
        rcases List.mem_cons.mp there with rfl | before
        · exact parent
        · exact all_dots segment before parent
      rw [none_other, if_neg (fun both => Bool.false_ne_true both.2), if_pos (Or.inr (by rw [List.head?_cons, parent]))]
    · have not_kept : ¬ (top :: below = [] ∨ (top :: below).head? = some dots) := fun kept =>
        kept.elim (List.cons_ne_nil _ _) fun same => parent (Option.some.inj same)
      rw [if_neg not_kept, if_pos ⟨rfl, by simp [parent]⟩]

theorem Normal.cancelDots_dots (normal : Normal stack) :
    cancelDots stack dots = if stack = [] ∨ stack.head? = some dots then dots :: stack else stack.tail := by
  rw [cancelDots, normal.fate_dots]
  by_cases kept : stack = [] ∨ stack.head? = some dots
  · rw [if_pos kept, if_pos kept]
  · rw [if_neg kept, if_neg kept]
    cases stack with
    | nil => exact absurd (Or.inl rfl) kept
    | cons top below =>
      have no_parent : top ≠ dots := fun same => kept (Or.inr (congrArg some same))
      exact List.eraseP_cons_of_pos (decide_eq_true no_parent)

theorem cancelDots_dot (stack : List Bytes) : cancelDots stack dot = stack := rfl

theorem cancelDots_other (stack : List Bytes) (no_dot : segment ≠ dot) (no_dots : segment ≠ dots) :
    cancelDots stack segment = segment :: stack := by
  simp [cancelDots, Parents.fate, no_dot, no_dots]

theorem Normal.cancelDots (normal : Normal stack) (segment : Bytes) : Normal (cancelDots stack segment) := by
  by_cases dropped : segment = dot
  · rw [dropped, cancelDots_dot]
    exact normal
  by_cases parent : segment = dots
  · rw [parent, normal.cancelDots_dots]
    split
    · rename_i kept
      refine List.pairwise_cons.mpr ⟨fun earlier there _ => ?_, normal⟩
      cases stack with
      | nil => exact absurd there List.not_mem_nil
      | cons top below =>
        have same : top = dots := Option.some.inj (kept.resolve_left (List.cons_ne_nil _ _))
        rcases List.mem_cons.mp there with rfl | before
        · exact same
        · exact (List.pairwise_cons.mp normal).1 earlier before same
    · exact List.Pairwise.sublist (List.tail_sublist _) normal
  · rw [cancelDots_other stack dropped parent]
    exact (normal_cons_other parent).mpr normal

theorem Uncancelled.follow_stack (u : Uncancelled) (segment : Bytes) : (u.follow segment).stack = cancelDots u.stack segment := by
  rw [Uncancelled.follow, Parents.cancelDots]
  cases Parents.fate u.stack segment <;> rfl

/-- Where the previous segment is recognized, the source does what is meant. -/
theorem Uncancelled.Recognized.keepsDots_iff {u : Uncancelled} (recognized : u.Recognized) :
    u.keepsDots = true ↔ u.stack = [] ∨ u.stack.head? = some dots := by
  have parent := recognized.parent
  rw [Uncancelled.keepsDots, recognized.notStray]
  cases there : u.stack with
  | nil => simp
  | cons top below =>
    have same := parent top (by rw [there]; rfl)
    simp only [List.cons_ne_nil, decide_false, Bool.false_or, Bool.and_eq_true, decide_eq_true_eq, List.headD_cons, false_or,
      List.head?_cons, Option.some.injEq]
    constructor
    · rintro ⟨two, starts⟩
      exact (same starts).mp two
    · rintro rfl
      exact ⟨(same (by decide)).mpr rfl, by decide⟩

theorem Uncancelled.fate_eq {u : Uncancelled} (normal : Normal u.stack) (recognized : segment = dots → u.Recognized) :
    u.fate segment = Parents.fate u.stack segment := by
  by_cases dropped : segment = dot
  · rw [dropped]
    rfl
  by_cases parent : segment = dots
  · subst parent
    rw [Uncancelled.fate_dots, normal.fate_dots]
    exact if_congr (recognized rfl).keepsDots_iff rfl rfl
  · rw [Uncancelled.fate_other u dropped parent]
    simp [Parents.fate, dropped, parent]

theorem Uncancelled.turn_eq {u : Uncancelled} (normal : Normal u.stack) (recognized : segment = dots → u.Recognized) :
    u.turn segment = u.follow segment := by
  have becomes := Uncancelled.fate_eq normal recognized
  rw [Uncancelled.turn, Uncancelled.follow, becomes]
  cases fate : Parents.fate u.stack segment with
  | drop => rfl
  | keep => rfl
  | cancel =>
    obtain ⟨rfl, -⟩ := eq_dots_of_cancel (becomes.trans fate)
    have erased : u.stack.eraseP (· ≠ dots) = u.stack.tail := by
      have cancelled := normal.cancelDots_dots
      rw [Parents.cancelDots, fate] at cancelled
      rw [normal.fate_dots] at fate
      split at fate
      · cases fate
      · rename_i other
        rwa [if_neg other] at cancelled
    dsimp only
    rw [Uncancelled.withoutPrevious, (recognized rfl).notStray, erased]
    rfl

/-- The condition on the segments that are still to come. -/
def Uncancelled.Reducible (u : Uncancelled) (rest : List Bytes) : Prop :=
  ∀ before after, rest = before ++ dots :: after → (before.foldl Uncancelled.follow u).Recognized

theorem Uncancelled.reducible_cons {u : Uncancelled} {rest : List Bytes} :
    u.Reducible (segment :: rest) ↔ (segment = dots → u.Recognized) ∧ (u.follow segment).Reducible rest := by
  constructor
  · intro reducible
    refine ⟨fun parent => reducible [] rest (by rw [parent]; rfl), fun before after split => ?_⟩
    exact reducible (segment :: before) after (by rw [split]; rfl)
  · rintro ⟨first, later⟩ before after split
    cases before with
    | nil =>
      obtain ⟨parent, -⟩ := List.cons.inj split
      exact first parent
    | cons head before =>
      obtain ⟨rfl, others⟩ := List.cons.inj split
      exact later before after others

theorem textFrom_eq (rest : List Bytes) : ∀ {u : Uncancelled}, Normal u.stack → u.Reducible rest →
    u.textFrom rest = withoutDotsFrom u.stack rest := by
  induction rest with
  | nil =>
    intro u normal reducible
    rfl
  | cons segment rest ih =>
    intro u normal reducible
    obtain ⟨here, later⟩ := Uncancelled.reducible_cons.mp reducible
    have turn := Uncancelled.turn_eq normal here
    cases rest with
    | nil => rw [Uncancelled.textFrom, withoutDotsFrom, Uncancelled.fate_eq normal here, turn, Uncancelled.follow_stack]
    | cons second rest =>
      rw [Uncancelled.textFrom, withoutDotsFrom, turn, ← Uncancelled.follow_stack]
      · exact ih (by rw [Uncancelled.follow_stack]; exact normal.cancelDots segment) later
      all_goals exact fun wrong => absurd wrong (List.cons_ne_nil _ _)

/-- The segments, of which a `..` takes one away. -/
def balance (stack : List Bytes) : Int := (stack.map fun segment => if segment = dots then -1 else 1).sum

theorem balance_cons (segment : Bytes) (stack : List Bytes) :
    balance (segment :: stack) = (if segment = dots then -1 else 1) + balance stack := List.sum_cons

/-- The source has cancelled a `..` or lost one, or else it has kept one that could be cancelled. -/
def Diverged (u : Uncancelled) (stack : List Bytes) : Prop :=
  balance stack < balance u.stack ∨ balance stack = balance u.stack ∧ ¬ Normal u.stack

theorem Diverged.ne {u : Uncancelled} (diverged : Diverged u stack) (normal : Normal stack) : u.stack ≠ stack := by
  rintro rfl
  rcases diverged with more | ⟨-, mixed⟩
  · omega
  · exact mixed normal

/-- What is meant takes one away with each `..`. -/
theorem balance_cancelDots (normal : Normal stack) : balance (cancelDots stack dots) = balance stack - 1 := by
  rw [normal.cancelDots_dots]
  split
  · rw [balance_cons, if_pos rfl]
    omega
  · rename_i other
    cases stack with
    | nil => exact absurd (Or.inl rfl) other
    | cons top below =>
      have no_parent : top ≠ dots := fun same => other (Or.inr (congrArg some same))
      rw [balance_cons, if_neg no_parent, List.tail_cons]
      omega

theorem Diverged.turn {u : Uncancelled} (diverged : Diverged u stack) (normal : Normal stack) (segment : Bytes) :
    Diverged (u.turn segment) (cancelDots stack segment) := by
  by_cases dropped : segment = dot
  · rw [dropped]
    exact diverged
  by_cases parent : segment = dots
  · subst parent
    have less := balance_cancelDots normal
    rw [Uncancelled.turn, Uncancelled.fate_dots]
    cases kept : u.keepsDots with
    | true =>
      have more : balance (u.keep dots).stack = balance u.stack - 1 := by
        rw [Uncancelled.keep, balance_cons, if_pos rfl]
        omega
      rcases diverged with above | ⟨level, mixed⟩
      · exact Or.inl (by rw [if_pos rfl]; dsimp only; omega)
      · refine Or.inr ⟨by rw [if_pos rfl]; dsimp only; omega, fun normal => mixed ?_⟩
        exact (List.pairwise_cons.mp normal).2
    | false =>
      rw [if_neg Bool.false_ne_true]
      dsimp only
      rw [Uncancelled.withoutPrevious]
      cases first : u.stray with
      | true =>
        rw [if_pos rfl]
        rcases diverged with above | ⟨level, -⟩
        · exact Or.inl (by omega)
        · exact Or.inl (by omega)
      | false =>
        rw [if_neg Bool.false_ne_true]
        cases there : u.stack with
        | nil => simp [Uncancelled.keepsDots, there] at kept
        | cons top below =>
          have after : u.cancel.stack = below := by rw [Uncancelled.cancel, there, List.tail_cons]
          have before := balance_cons top below
          rw [← there] at before
          rw [Diverged, after]
          by_cases parent : top = dots
          · rw [if_pos parent] at before
            rcases diverged with above | ⟨level, -⟩
            · exact Or.inl (by omega)
            · exact Or.inl (by omega)
          · rw [if_neg parent] at before
            rcases diverged with above | ⟨level, mixed⟩
            · exact Or.inl (by omega)
            · rw [there, normal_cons_other parent] at mixed
              exact Or.inr ⟨by omega, mixed⟩
  · have stays : (u.turn segment).stack = segment :: u.stack := by
      rw [Uncancelled.turn, Uncancelled.fate_other u dropped parent]
      rfl
    rw [Diverged, cancelDots_other stack dropped parent, stays, balance_cons, balance_cons, normal_cons_other parent]
    rcases diverged with above | ⟨level, mixed⟩
    · exact Or.inl (by omega)
    · exact Or.inr ⟨by omega, mixed⟩

/-- A `..` is kept behind another segment. -/
theorem diverged_of_kept {u : Uncancelled} {top : Bytes} {below : List Bytes} (normal : Normal u.stack)
    (there : u.stack = top :: below) (other : top ≠ dots) (keeps : u.keepsDots = true) :
    Diverged (u.turn dots) (cancelDots u.stack dots) := by
  have kept : (u.turn dots).stack = dots :: u.stack := by
    rw [Uncancelled.turn, Uncancelled.fate_dots, keeps]
    rfl
  refine Or.inr ⟨?_, fun normal => ?_⟩
  · rw [balance_cancelDots normal, kept, balance_cons, if_pos rfl]
    omega
  · rw [kept, there] at normal
    exact other ((List.pairwise_cons.mp normal).1 top List.mem_cons_self rfl)

/-- Where the previous segment is not recognized, a `..` is read wrongly. -/
theorem diverged_of_not_recognized {u : Uncancelled} (proper : u.Proper) (normal : Normal u.stack) (stuck : ¬ u.Recognized) :
    Diverged (u.turn dots) (cancelDots u.stack dots) := by
  have less := balance_cancelDots normal
  cases first : u.stray with
  | true =>
    have there := proper.stray first
    cases keeps : u.keepsDots with
    | true => exact diverged_of_kept normal there (by decide) keeps
    | false =>
      have stays : (u.turn dots).stack = u.stack := by
        rw [Uncancelled.turn, Uncancelled.fate_dots, keeps, if_neg Bool.false_ne_true]
        dsimp only
        rw [Uncancelled.withoutPrevious, first, if_pos rfl]
      exact Or.inl (by rw [stays]; omega)
  | false =>
    have wrong : ¬ ∀ top, u.stack.head? = some top → dots.isPrefixOf top = true → (u.length = 2 ↔ top = dots) :=
      fun right => stuck ⟨first, right⟩
    push Not at wrong
    obtain ⟨top, head, starts, apart⟩ := wrong
    obtain ⟨below, there⟩ := List.head?_eq_some_iff.mp head
    have keeps : u.keepsDots = decide (u.length = 2) := by
      rw [Uncancelled.keepsDots, there, first, List.headD_cons, starts]
      simp
    rcases apart with ⟨two, other⟩ | ⟨not_two, rfl⟩
    · exact diverged_of_kept normal there other (by rw [keeps]; exact decide_eq_true two)
    · have cancelled : (u.turn dots).stack = below := by
        rw [Uncancelled.turn, Uncancelled.fate_dots, keeps, decide_eq_false not_two, if_neg Bool.false_ne_true]
        dsimp only
        rw [Uncancelled.withoutPrevious, first, if_neg Bool.false_ne_true, Uncancelled.cancel, there, List.tail_cons]
      have before := balance_cons dots below
      rw [← there, if_pos rfl] at before
      exact Or.inl (by rw [cancelled]; omega)

theorem segments_leave (stack : List Bytes) (clear : ∀ segment ∈ stack, chrSlash ∉ segment) :
    ∀ tail, segments (leave stack ++ tail) = stack.reverse ++ segments tail := by
  induction stack with
  | nil =>
    intro tail
    rfl
  | cons segment stack ih =>
    intro tail
    rw [leave_cons, List.append_assoc, List.append_assoc, ih fun segment there => clear segment (List.mem_cons_of_mem _ there),
      List.singleton_append, segments_cons (clear segment List.mem_cons_self), List.reverse_cons, List.append_assoc]
    rfl

theorem leave_append_inj {stack stack' : List Bytes} {last last' : Bytes}
    (clear : ∀ segment ∈ stack, chrSlash ∉ segment) (clear' : ∀ segment ∈ stack', chrSlash ∉ segment)
    (clearLast : chrSlash ∉ last) (clearLast' : chrSlash ∉ last')
    (same : leave stack ++ last = leave stack' ++ last') : last = last' ∧ stack = stack' := by
  have split := congrArg segments same
  rw [segments_leave stack clear, segments_leave stack' clear', segments_of_no_slash clearLast, segments_of_no_slash clearLast'] at split
  obtain ⟨fronts, lasts⟩ := List.append_inj' split rfl
  exact ⟨(List.cons.inj lasts).1, List.reverse_injective fronts⟩

theorem cancelDots_clear (clear : ∀ segment ∈ stack, chrSlash ∉ segment) (here : chrSlash ∉ segment) :
    ∀ other ∈ cancelDots stack segment, chrSlash ∉ other := by
  intro other there
  rw [cancelDots] at there
  cases fate : Parents.fate stack segment with
  | drop =>
    rw [fate] at there
    exact clear other there
  | cancel =>
    rw [fate] at there
    exact clear other (List.mem_of_mem_eraseP there)
  | keep =>
    rw [fate] at there
    rcases List.mem_cons.mp there with rfl | before
    · exact here
    · exact clear other before

/-- Once they are apart, the texts are different at the end. -/
theorem texts_differ {u : Uncancelled} {last : Bytes} (proper : u.Proper)
    (clear : ∀ segment ∈ stack, chrSlash ∉ segment) (clearLast : chrSlash ∉ last) (normal : Normal stack)
    (diverged : Diverged (u.turn last) (cancelDots stack last)) :
    u.textFrom [last] ≠ withoutDotsFrom stack [last] := by
  intro same
  have apart := diverged.ne (normal.cancelDots last)
  have clearTurn := (proper.turn clearLast).clear
  have clearAfter := cancelDots_clear clear clearLast
  have neither : chrSlash ∉ ([] : Bytes) := List.not_mem_nil
  rw [Uncancelled.textFrom, withoutDotsFrom] at same
  by_cases dropped : last = dot
  · subst dropped
    have same : leave u.stack = leave stack := same
    rw [← List.append_nil (leave u.stack), ← List.append_nil (leave stack)] at same
    exact apart (leave_append_inj clearTurn clearAfter neither neither same).2
  by_cases parent : last = dots
  · subst parent
    by_cases kept : u.fate dots = .keep
    · rw [if_pos kept] at same
      by_cases kept' : Parents.fate stack dots = .keep
      · rw [if_pos kept'] at same
        refine apart ?_
        rw [Uncancelled.turn, cancelDots, kept, kept', (leave_append_inj proper.clear clear clearLast clearLast same).2.symm]
        rfl
      · rw [if_neg kept', ← List.append_nil (leave (cancelDots stack dots))] at same
        exact absurd (leave_append_inj proper.clear clearAfter clearLast neither same).1 (by decide)
    · rw [if_neg kept, ← List.append_nil (leave (u.turn dots).stack)] at same
      by_cases kept' : Parents.fate stack dots = .keep
      · rw [if_pos kept'] at same
        exact absurd (leave_append_inj clearTurn clear neither clearLast same).1 (by decide)
      · rw [if_neg kept', ← List.append_nil (leave (cancelDots stack dots))] at same
        exact apart (leave_append_inj clearTurn clearAfter neither neither same).2
  · have kept : u.fate last = .keep := Uncancelled.fate_other u dropped parent
    have kept' : Parents.fate stack last = .keep := by simp [Parents.fate, dropped, parent]
    rw [if_pos kept, if_pos kept'] at same
    refine apart ?_
    rw [Uncancelled.turn, cancelDots, kept, kept', (leave_append_inj proper.clear clear clearLast clearLast same).2.symm]
    rfl

theorem runs_differ (rest : List Bytes) : ∀ {u : Uncancelled} {stack : List Bytes} {segment : Bytes}, u.Proper →
    (∀ segment ∈ stack, chrSlash ∉ segment) → (∀ other ∈ segment :: rest, chrSlash ∉ other) → Normal stack →
    Diverged (u.turn segment) (cancelDots stack segment) →
    u.textFrom (segment :: rest) ≠ withoutDotsFrom stack (segment :: rest) := by
  induction rest with
  | nil =>
    intro u stack segment proper clear clearRest normal diverged
    exact texts_differ proper clear (clearRest segment List.mem_cons_self) normal diverged
  | cons second rest ih =>
    intro u stack segment proper clear clearRest normal diverged
    have here := clearRest segment List.mem_cons_self
    exact ih (proper.turn here) (cancelDots_clear clear here) (fun other there => clearRest other (List.mem_cons_of_mem _ there))
      (normal.cancelDots segment) (diverged.turn (normal.cancelDots segment) second)

theorem reducible_of_textFrom_eq (rest : List Bytes) : ∀ {u : Uncancelled}, u.Proper → Normal u.stack →
    (∀ segment ∈ rest, chrSlash ∉ segment) → u.textFrom rest = withoutDotsFrom u.stack rest → u.Reducible rest := by
  induction rest with
  | nil =>
    intro u proper normal clear same before after split
    exact absurd split (by simp)
  | cons segment rest ih =>
    intro u proper normal clear same
    have here := clear segment List.mem_cons_self
    have recognized : segment = dots → u.Recognized := by
      rintro rfl
      by_contra stuck
      exact runs_differ rest proper proper.clear clear normal (diverged_of_not_recognized proper normal stuck) same
    have turn := Uncancelled.turn_eq normal recognized
    refine Uncancelled.reducible_cons.mpr ⟨recognized, ?_⟩
    cases rest with
    | nil =>
      intro before after split
      exact absurd split (by simp)
    | cons second rest =>
      have normal' := normal.cancelDots segment
      rw [← Uncancelled.follow_stack] at normal'
      refine ih (turn ▸ proper.turn here) normal' (fun other there => clear other (List.mem_cons_of_mem _ there)) ?_
      rw [Uncancelled.follow_stack, ← turn]
      exact same

theorem segments_clear (uri : Bytes) : ∀ segment ∈ segments uri, chrSlash ∉ segment := by
  induction uri with
  | nil =>
    intro segment there
    rw [List.mem_singleton.mp there]
    exact List.not_mem_nil
  | cons c uri ih =>
    intro segment there
    rw [segments, List.splitOn_cons_eq_if_modifyHead] at there
    split at there
    · rcases List.mem_cons.mp there with rfl | later
      · exact List.not_mem_nil
      · exact ih segment later
    · rename_i other
      obtain ⟨head, rest, split⟩ := List.exists_cons_of_ne_nil (segments_ne_nil uri)
      rw [segments] at split
      rw [split, List.modifyHead_cons] at there
      rw [segments, split] at ih
      rcases List.mem_cons.mp there with rfl | later
      · rw [List.mem_cons, not_or]
        exact ⟨fun same => other (beq_iff_eq.mpr same.symm), ih head List.mem_cons_self⟩
      · exact ih segment (List.mem_cons_of_mem _ later)

/-- The dots of a reference are reduced as it is meant if and only if in front of each `..` the previous
segment is recognized. -/
theorem parents_cancelled_iff {uri : Bytes} (proper : (0 : UInt8) ∉ uri) :
    removeInternalRelativeComponents uri = withoutDots uri ↔
      ∀ before after, segments uri = before ++ dots :: after → (before.foldl Uncancelled.follow nothingYet).Recognized := by
  have fresh : nothingYet.Proper :=
    ⟨fun _ there => absurd there List.not_mem_nil, fun wrong => absurd wrong Bool.false_ne_true⟩
  rw [removeInternalRelativeComponents_text proper]
  exact ⟨reducible_of_textFrom_eq _ fresh List.Pairwise.nil (segments_clear uri), textFrom_eq _ List.Pairwise.nil⟩

theorem parents_cancelled_iff_inner :
    removeInternalRelativeComponents (ascii "../a/./b/../c/.") = withoutDots (ascii "../a/./b/../c/.") ↔
      ∀ before after, segments (ascii "../a/./b/../c/.") = before ++ dots :: after →
        (before.foldl Uncancelled.follow nothingYet).Recognized :=
  parents_cancelled_iff (by decide)

/-- `..` is cancelled by `..`: both go, in place of `../..`. -/
theorem parent_cancels_parent :
    ¬ removeInternalRelativeComponents (ascii "../abc/../..") = withoutDots (ascii "../abc/../..") := by
  decide

end GnomeVfs.Parents
