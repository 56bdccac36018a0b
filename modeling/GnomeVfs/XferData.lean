import GnomeVfs.XferComplete

/- The bytes that `copy_file_data` takes from the source and hands to the target. -/
namespace GnomeVfs.Xfer

open Interaction
open Interaction.Action (Shows wp)

variable {U : Type}

section Source

/-- What is left of the source behind an event. A read that succeeds takes the next bytes, and none
only at the end or where none are asked for. A read that fails takes nothing. -/
def feed (source : Handle) (left : Bytes) : XferEvent U → Option Bytes
  | ⟨.read handle bytes, (result, data)⟩ =>
    if handle ≠ source then some left
    else if result = .ok then
      if data.1 <+: left ∧ (data.1 = [] → left = [] ∨ bytes = 0) then some (left.drop data.1.length) else none
    else if result = .eof then if left = [] ∧ data.1 = [] then some [] else none
    else some left
  | _ => some left

variable {source : Handle} {left rest : Bytes}

theorem feed_bytesRead {e : XferEvent U} (fed : feed source left e = some rest) : bytesRead source e ++ rest = left := by
  obtain ⟨op, r⟩ := e
  cases op with
  | read handle bytes =>
    obtain ⟨result, data⟩ := r
    simp only [feed] at fed
    split at fed
    · cases fed
      simp [bytesRead, *]
    · rename_i same
      split at fed
      · split at fed
        · rename_i ok next
          cases fed
          obtain ⟨tail, rfl⟩ := next.1
          simp [bytesRead, not_not.mp same, ok]
        · cases fed
      · rename_i failed
        split at fed
        · split at fed
          · rename_i eof nothing
            cases fed
            simp [bytesRead, nothing]
          · cases fed
        · cases fed
          simp [bytesRead, *]
  | _ =>
    cases fed
    rfl

theorem foldlM_feed {trace : Trace U} (fed : trace.foldlM (feed source) left = some rest) :
    trace.flatMap (bytesRead source) ++ rest = left := by
  induction trace generalizing left with
  | nil =>
    cases fed
    rfl
  | cons e trace ih =>
    rw [List.foldlM_cons] at fed
    obtain ⟨middle, first, later⟩ := Option.bind_eq_some_iff.mp fed
    rw [List.flatMap_cons, List.append_assoc, ih later, feed_bytesRead first]

theorem feed_end {bytes : Nat} {r : (Op.read (U := U) source bytes).Reply} (fed : feed (U := U) source left ⟨.read source bytes, r⟩ = some rest)
    (positive : 0 < bytes) (ended : r.1 = .eof ∨ (r.1 = .ok ∧ r.2.1 = [])) : rest = [] := by
  obtain ⟨result, data⟩ := r
  simp only [feed, ne_eq, not_true_eq_false, if_false] at fed
  rcases ended with rfl | ⟨rfl, nothing⟩
  · rw [if_neg (by decide), if_pos rfl] at fed
    split at fed <;> cases fed
    rfl
  · rw [if_pos rfl] at fed
    split at fed
    · rename_i next
      cases fed
      rw [(next.2 nothing).resolve_right (by omega), List.drop_nil]
    · cases fed

theorem feed_eof {bytes : Nat} {r : (Op.read (U := U) source bytes).Reply} (fed : feed (U := U) source left ⟨.read source bytes, r⟩ = some rest)
    (eof : r.1 = .eof) : r.2.1 = [] := by
  obtain ⟨result, data⟩ := r
  cases eof
  simp only [feed, ne_eq, not_true_eq_false, if_false] at fed
  rw [if_neg (by decide), if_pos trivial] at fed
  split at fed
  · rename_i nothing
    exact nothing.2
  · cases fed

end Source

/-- What a run may hold: an `EOF` of the source comes without bytes, an `EOF` of a write is asked about,
and an error is answered with one of the actions. -/
structure Proper (cfg : Config U) (source : Handle) (e : XferEvent U) : Prop where
  read : ∀ bytes r, e = ⟨.read source bytes, r⟩ → r.1 = .eof → r.2.1 = []
  write : ∀ target buffer r, e = ⟨.write target buffer, r⟩ → r.1 = .eof → cfg.errorMode = .query
  answer : Regular e

theorem proper_sound (cfg : Config U) (source : Handle) : Sound cfg source (Proper cfg source) := by
  constructor
  · exact fun bytes r proper => proper.read bytes r rfl
  · intro target buffer r proper
    by_cases eof : r.1 = .eof
    · exact Or.inr ⟨proper.write target buffer r rfl eof, fun _ _ other site _ => other.answer site⟩
    · exact Or.inl eof

theorem feed_proper {source : Handle} {trace : Trace U} {left rest : Bytes} {bytes : Nat}
    {r : (Op.read (U := U) source bytes).Reply} (fed : trace.foldlM (feed source) left = some rest)
    (member : ⟨.read source bytes, r⟩ ∈ trace) (eof : r.1 = .eof) : r.2.1 = [] := by
  induction trace generalizing left with
  | nil => cases member
  | cons e trace ih =>
    rw [List.foldlM_cons] at fed
    obtain ⟨middle, first, later⟩ := Option.bind_eq_some_iff.mp fed
    rcases List.mem_cons.mp member with rfl | member
    · exact feed_eof first eof
    · exact ih later member

theorem copyFileData_complete (cfg : Config U) (fuel : Nat) (target source : Handle)
    (sourceBlockSize targetBlockSize : UInt32) (positive : 1 ≤ (max sourceBlockSize targetBlockSize).toNat)
    (content left : Bytes) (s s' : State) (trace : Trace U)
    (run : Runs (copyFileData cfg fuel target source sourceBlockSize targetBlockSize s) trace (.returned ((.ok, false), s')))
    (fed : trace.foldlM (feed source) content = some left)
    (asked : ∀ handle buffer r, ⟨.write handle buffer, r⟩ ∈ trace → r.1 = .eof → cfg.errorMode = .query)
    (answered : ∀ e ∈ trace, Regular e) : trace.flatMap (bytesWritten target) = content := by
  have proper : ∀ e ∈ trace, Proper cfg source e := by
    intro e member
    refine ⟨?_, ?_, answered e member⟩
    · rintro bytes r rfl
      exact feed_proper fed member
    · rintro handle buffer r rfl
      exact asked handle buffer r member
  obtain ⟨gap, data, back, rfl, ⟨gapQuiet, backQuiet⟩, -, copied⟩ :=
    ((shows_copyFileData (proper_sound cfg source) positive).holds run proper).2 rfl
  have gapIdle := gapQuiet.idle
  have backIdle := backQuiet.idle
  have reads := foldlM_feed fed
  obtain ⟨before, bytes, r, rfl, some_bytes, ended⟩ := copied.ended
  -- the last read leaves nothing of the source
  have done : left = [] := by
    rw [← List.append_assoc, List.foldlM_append, List.foldlM_append] at fed
    obtain ⟨last, first, later⟩ := Option.bind_eq_some_iff.mp fed
    obtain ⟨middle, -, lastRead⟩ := Option.bind_eq_some_iff.mp first
    rw [List.foldlM_cons] at lastRead
    obtain ⟨final, read, same⟩ := Option.bind_eq_some_iff.mp lastRead
    cases same
    have behind := foldlM_feed later
    rw [backIdle.reads, List.nil_append] at behind
    rw [behind]
    exact feed_end read some_bytes ended
  rw [done, List.append_nil] at reads
  rw [List.flatMap_append, List.flatMap_append, gapIdle.reads, backIdle.reads, List.nil_append, List.append_nil] at reads
  rw [List.flatMap_append, List.flatMap_append, gapIdle.writes, backIdle.writes, List.nil_append, List.append_nil,
    copied.written, reads]

/-- Files of which the first write takes one byte and fails with an `EOF`. The callback has errors retried. -/
def flakyRead (left : Bytes) (bytes : Nat) : VfsResult × { data : Bytes // data.length ≤ bytes } :=
  if left = [] then (.eof, ⟨[], Nat.zero_le _⟩) else (.ok, ⟨left.take bytes, List.length_take_le _ _⟩)

def flakyWrite (tried : Bool) (size : Nat) : VfsResult × Fin (size + 1) :=
  if tried then (.ok, Fin.last size) else (.eof, ⟨min 1 size, by omega⟩)

def flakyReply : Bytes × Bool → (op : Op Bytes) → op.Reply × (Bytes × Bool)
  | e, .read _ bytes => (flakyRead e.1 bytes, (e.1.drop bytes, e.2))
  | e, .write _ buffer => (flakyWrite e.2 buffer.length, (e.1, true))
  | e, op => (calmReply op, e)

def flakyCopy : XferM Bytes (VfsResult × Bool) :=
  copyFileData { plainConfig {} with errorMode := .query } 6 3 2 2 1

def flakyRun : Trace Bytes × Outcome Stop ((VfsResult × Bool) × State) :=
  Prog.exec flakyReply (flakyCopy { overwriteMode := .query }) ([1, 2, 3], false)

theorem flakyRun_returned : ∃ s, flakyRun.2 = .returned ((.ok, false), s) :=
  Outcome.returned_of_meets (by decide +kernel)

theorem copyFileData_complete_retried : flakyRun.1.flatMap (bytesWritten 3) = [1, 2, 3] := by
  have run : Runs (flakyCopy { overwriteMode := .query }) flakyRun.1 flakyRun.2 := Prog.exec_runs flakyReply _ _
  obtain ⟨s', returned⟩ := flakyRun_returned
  rw [returned] at run
  have fed : flakyRun.1.foldlM (feed 2) [1, 2, 3] = some [] := by decide +kernel
  have answered : ∀ e ∈ flakyRun.1, Regular e := by decide +kernel
  exact copyFileData_complete _ 6 3 2 2 1 (by decide) _ _ _ s' _ run fed (fun _ _ _ _ _ => rfl) answered

section Skipping

/-- The callback answers an error with `SKIP`. -/
def Skips : XferEvent U → Prop
  | ⟨.notify n, a⟩ => n.site = .handleError ∧ n.heard a errorActionAbort = errorActionSkip
  | _ => False

/-- The run writes to the target, fails, and is told to skip. `back` is what comes behind. -/
def SkippedWrite (target : Handle) (trace : Trace U) (buffer : Bytes)
    (r : VfsResult × Fin (buffer.length + 1)) (back : Trace U) : Prop :=
  ∃ front e, trace = front ++ ⟨.write target buffer, r⟩ :: e :: back ∧ r.1 ≠ .ok ∧ Skips e

/-- The event is no write to the target and no question about an error. -/
def Resting (target : Handle) : XferEvent U → Prop
  | ⟨.write h _, _⟩ => h ≠ target
  | ⟨.notify n, _⟩ => n.site ≠ .handleError
  | _ => True

variable {target : Handle} {trace : Trace U}

theorem Skips.not_resting {e : XferEvent U} (skips : Skips e) : ¬ Resting target e := by
  obtain ⟨op, r⟩ := e
  cases op with
  | notify n => exact fun resting => resting skips.1
  | _ => exact skips.elim

def NoSkip (target : Handle) (trace : Trace U) : Prop :=
  ∀ buffer r back, ¬ SkippedWrite target trace buffer r back

theorem noSkip_nil : NoSkip target ([] : Trace U) := by
  rintro buffer r back ⟨front, e, split, -⟩
  simp at split

theorem NoSkip.snoc (clear : NoSkip target trace) {e : XferEvent U}
    (apart : Skips e → ∀ front buffer r, trace = front ++ [⟨.write target buffer, r⟩] → r.1 = .ok) :
    NoSkip target (trace ++ [e]) := by
  rintro buffer r back ⟨front, e', split, failed, skips⟩
  rcases List.eq_nil_or_concat back with rfl | ⟨back, last, rfl⟩
  · rw [show front ++ [(⟨.write target buffer, r⟩ : XferEvent U), e'] =
      front ++ [(⟨.write target buffer, r⟩ : XferEvent U)] ++ [e'] by simp] at split
    obtain ⟨before, same⟩ := List.append_inj' split rfl
    cases same
    exact failed (apart skips front buffer r before)
  · rw [List.concat_eq_append, show front ++ (⟨.write target buffer, r⟩ : XferEvent U) :: e' :: (back ++ [last]) =
      front ++ (⟨.write target buffer, r⟩ : XferEvent U) :: e' :: back ++ [last] by simp] at split
    obtain ⟨before, -⟩ := List.append_inj' split rfl
    exact clear buffer r back ⟨front, e', before, failed, skips⟩

theorem NoSkip.resting (clear : NoSkip target trace) {e : XferEvent U} (unasked : ¬ Skips e) :
    NoSkip target (trace ++ [e]) := clear.snoc fun skips => absurd skips unasked

/-- A write that took all bytes has been skipped, and nothing has come of it. -/
def SkipDone (target : Handle) (trace : Trace U) : Prop :=
  ∃ front buffer r e back, trace = front ++ ⟨.write target buffer, r⟩ :: e :: back ∧
    NoSkip target (front ++ [⟨.write target buffer, r⟩]) ∧ r.2.1 = buffer.length ∧ ∀ e ∈ back, Resting target e

theorem SkipDone.snoc (done : SkipDone target trace) {e : XferEvent U} (resting : Resting target e) :
    SkipDone target (trace ++ [e]) := by
  obtain ⟨front, buffer, r, e', back, rfl, clear, all, rest⟩ := done
  refine ⟨front, buffer, r, e', back ++ [e], by simp, clear, all, ?_⟩
  intro e'' member
  rcases List.mem_append.mp member with early | last
  · exact rest e'' early
  · rw [List.mem_singleton.mp last]
    exact resting

/-- The write that has been skipped is the only one. -/
theorem SkipDone.only (done : SkipDone target trace) {buffer : Bytes} {r : VfsResult × Fin (buffer.length + 1)}
    {back : Trace U} (skipped : SkippedWrite target trace buffer r back) :
    r.2.1 = buffer.length ∧ ∀ e ∈ back, Resting target e := by
  obtain ⟨front, buffer', r', e', back', rfl, clear, all, rest⟩ := done
  obtain ⟨front', e, split, failed, skips⟩ := skipped
  rcases List.append_eq_append_iff.mp split with ⟨more, rfl, tail⟩ | ⟨more, rfl, tail⟩
  · cases more with
    | nil =>
      cases tail
      exact ⟨all, rest⟩
    | cons w more =>
      -- the question would lie behind the write that has been skipped
      cases more with
      | nil =>
        simp only [List.cons_append, List.nil_append, List.cons.injEq] at tail
        obtain ⟨-, -, rfl⟩ := tail
        exact absurd (rest e List.mem_cons_self) skips.not_resting
      | cons w' more =>
        simp only [List.cons_append, List.cons.injEq] at tail
        obtain ⟨-, -, rfl⟩ := tail
        exact absurd (rest e (List.mem_append_right more (by simp))) skips.not_resting
  · cases more with
    | nil =>
      cases tail
      exact ⟨all, rest⟩
    | cons w more =>
      simp only [List.cons_append, List.cons.injEq] at tail
      obtain ⟨rfl, tail⟩ := tail
      cases more with
      | nil =>
        simp only [List.nil_append, List.cons.injEq] at tail
        exact (tail.1 ▸ skips : Skips (⟨.write target buffer', r'⟩ : XferEvent U)).elim
      | cons w' more =>
        simp only [List.cons_append, List.cons.injEq] at tail
        obtain ⟨rfl, -⟩ := tail
        exact absurd ⟨front', e, by simp, failed, skips⟩ (clear buffer r (more ++ [⟨.write target buffer', r'⟩]))

/-- A write that left bytes has just been skipped. -/
def SkipPartial (target : Handle) (trace : Trace U) : Prop :=
  ∃ buffer r, SkippedWrite target trace buffer r [] ∧ r.2.1 ≠ buffer.length

/-- A write that left bytes has been skipped, and the run has written or asked again. -/
def SkipBroken (target : Handle) (trace : Trace U) : Prop :=
  ∃ buffer r back, SkippedWrite target trace buffer r back ∧ r.2.1 ≠ buffer.length ∧ ∃ e ∈ back, ¬ Resting target e

theorem SkippedWrite.snoc {buffer : Bytes} {r : VfsResult × Fin (buffer.length + 1)} {back : Trace U}
    (skipped : SkippedWrite target trace buffer r back) (e : XferEvent U) :
    SkippedWrite target (trace ++ [e]) buffer r (back ++ [e]) := by
  obtain ⟨front, e', rfl, failed, skips⟩ := skipped
  exact ⟨front, e', by simp, failed, skips⟩

theorem SkipBroken.snoc (broken : SkipBroken target trace) (e : XferEvent U) : SkipBroken target (trace ++ [e]) := by
  obtain ⟨buffer, r, back, skipped, short, e', member, moved⟩ := broken
  exact ⟨buffer, r, back ++ [e], skipped.snoc e, short, e', List.mem_append_left _ member, moved⟩

theorem SkipPartial.write (short : SkipPartial target trace) (buffer : Bytes) (r : VfsResult × Fin (buffer.length + 1)) :
    SkipBroken target (trace ++ [⟨.write target buffer, r⟩]) := by
  obtain ⟨before, r', skipped, left⟩ := short
  exact ⟨before, r', _, skipped.snoc _, left, _, List.mem_singleton.mpr rfl, fun resting => resting rfl⟩

variable {cfg : Config U} {fuel : Nat} {source : Handle}

theorem wp_broken {α : Type} {x : XferM U α} {s : State} (broken : SkipBroken target trace) :
    wp record x s (fun _ _ m => SkipBroken target m) (fun _ m => SkipBroken target m) trace :=
  Action.wp_record_keeps (fun _ e broken => broken.snoc e) broken

theorem wp_readBlock_noSkip {blockSize : Nat} {skip : Bool} {s : State} (clear : NoSkip target trace) :
    wp record (readBlock cfg fuel source blockSize skip) s (fun _ _ m => NoSkip target m) (fun _ m => NoSkip target m)
      trace := by
  refine @Action.wp_loop _ _ _ _ _ _ record _ (fun _ m => NoSkip target m) _ _ _ (fun _ _ m => NoSkip target m) ?_
    (fun _ _ _ clear => clear) fuel skip _ _ clear
  intro skip s m clear
  simp only [Action.wp_bind, wp_ask]
  rintro ⟨result, data⟩
  have asked : NoSkip target (record m ⟨.read source blockSize, (result, data)⟩) := clear.resting id
  simp only [Action.wp_ite, Action.wp_bind, Action.wp_pure]
  refine ⟨fun _ => ?_, fun _ => asked⟩
  apply wp_handleError
  · exact fun _ => ⟨fun _ => asked, fun _ => asked⟩
  · intro _ n a s' h _ _ _ _
    -- the event in front of the question is the read
    have answered : NoSkip target (record (record m ⟨.read source blockSize, (result, data)⟩) ⟨.notify n, a⟩) := by
      apply NoSkip.snoc asked
      intro _ front buffer r same
      cases (List.append_inj' same rfl).2
    exact ⟨fun _ => answered, fun _ => answered⟩

/-- How the writing of a block ends. -/
def BlockWritten (target : Handle) (skip : Bool) (m : Trace U) : Prop :=
  NoSkip target m ∧ skip = false ∨ SkipDone target m ∧ skip = true ∨ SkipBroken target m

/-- The run has stopped where no write was skipped, or where one was that left bytes. -/
def SkipOpen (target : Handle) (m : Trace U) : Prop :=
  NoSkip target m ∨ SkipPartial target m ∨ SkipBroken target m

theorem wp_writeBlock_skip {buffer : Bytes} {s : State} (clear : NoSkip target trace) :
    wp record (writeBlock cfg fuel target buffer false) s (fun r _ m => BlockWritten target r.2.1 m)
      (fun _ m => SkipOpen target m) trace := by
  refine Action.wp_loop (fun x _ m => NoSkip target m ∧ x.2 = false ∨ SkipPartial target m ∨ SkipBroken target m) ?_
    (fun _ _ _ inv => inv.imp_left And.left) fuel (buffer, false) (Or.inl ⟨clear, rfl⟩)
  rintro ⟨left, skip⟩ s m inv
  simp only [Action.wp_bind, wp_ask]
  rintro ⟨result, count⟩
  rcases inv with ⟨clear, rfl⟩ | other
  · have written : NoSkip target (record m ⟨.write target left, (result, count)⟩) := clear.resting id
    simp only [Action.wp_ite, Action.wp_bind, Action.wp_pure]
    refine ⟨fun failed => ?_, fun _ => ⟨fun _ => Or.inl ⟨written, trivial⟩, fun _ => Or.inl ⟨written, rfl⟩⟩⟩
    apply wp_handleError_answered
    · exact fun _ => ⟨fun _ => Or.inl ⟨written, rfl⟩, fun _ => Or.inl ⟨written, rfl⟩⟩
    · intro _ n a s' site _ _ _
      by_cases skips : n.heard a errorActionAbort = errorActionSkip
      · have here : SkippedWrite target (record (record m ⟨.write target left, (result, count)⟩) ⟨.notify n, a⟩) left
            (result, count) [] := ⟨m, ⟨.notify n, a⟩, by simp [record], failed, site, skips⟩
        simp only [skips, Handled.answered]
        refine ⟨fun more => Or.inr (Or.inl ⟨left, (result, count), here, ?_⟩), fun done => Or.inr (Or.inl ⟨?_, rfl⟩)⟩
        · intro (all : count.1 = left.length)
          simp [all] at more
        · have all : count.1 = left.length := by
            have some_left : left.drop count = [] := by simpa using done
            have := List.drop_eq_nil_iff.mp some_left
            omega
          exact ⟨m, left, (result, count), ⟨.notify n, a⟩, [], by simp [record], written, all, by simp⟩
      · have answered : NoSkip target (record (record m ⟨.write target left, (result, count)⟩) ⟨.notify n, a⟩) :=
          written.resting fun both => skips both.2
        have unskipped : (Handled.answered (n.heard a errorActionAbort) result).skip = false := by
          unfold Handled.answered
          split
          · rfl
          · split
            · rfl
            · rfl
        exact ⟨fun _ => Or.inl ⟨answered, unskipped⟩, fun _ => Or.inl ⟨answered, unskipped⟩⟩
  · have broken : SkipBroken target (record m ⟨.write target left, (result, count)⟩) := by
      rcases other with short | broken
      · exact short.write left (result, count)
      · exact broken.snoc _
    refine Action.wp_mono (wp_broken broken) (fun r s m broken => ?_) fun _ _ broken => Or.inr (Or.inr broken)
    cases r <;> exact Or.inr (Or.inr broken)

/-- How the copying of the data ends. -/
def DataSkipped (target : Handle) (skip : Bool) (m : Trace U) : Prop :=
  NoSkip target m ∨ SkipDone target m ∧ skip = true ∨ SkipBroken target m

theorem BlockWritten.notify {skip : Bool} (written : BlockWritten target skip trace) {n : Notice} {a : Answer}
    (site : n.site ≠ .handleError) : BlockWritten target skip (record trace ⟨.notify n, a⟩) := by
  rcases written with ⟨clear, kept⟩ | ⟨done, skipped⟩ | broken
  · exact Or.inl ⟨clear.resting fun skips => site skips.1, kept⟩
  · exact Or.inr (Or.inl ⟨done.snoc site, skipped⟩)
  · exact Or.inr (Or.inr (broken.snoc _))

theorem BlockWritten.forget {skip : Bool} (written : BlockWritten target skip trace) {h : Handle} {offset size : UInt64}
    {r : VfsResult} : BlockWritten target skip (record trace ⟨.forgetCache h offset size, r⟩) := by
  rcases written with ⟨clear, kept⟩ | ⟨done, skipped⟩ | broken
  · exact Or.inl ⟨clear.resting id, kept⟩
  · exact Or.inr (Or.inl ⟨done.snoc trivial, skipped⟩)
  · exact Or.inr (Or.inr (broken.snoc _))

theorem BlockWritten.ends {skip : Bool} (written : BlockWritten target skip trace) : DataSkipped target skip trace :=
  written.imp_left And.left

/-- Between the rounds of the outer loop. -/
def BetweenBlocks (target : Handle) (v : DataLoop) (m : Trace U) : Prop :=
  NoSkip target m ∧ v.skip = false ∨ SkipBroken target m

def BlockCopied (target : Handle) : Step DataLoop (VfsResult × Bool) → Trace U → Prop
  | .again v, m => BetweenBlocks target v m
  | .finish r, m => DataSkipped target r.2 m

theorem BlockWritten.again {v : DataLoop} (written : BlockWritten target v.skip trace) (going : ¬ v.skip = true) :
    BetweenBlocks target v trace := by
  rcases written with same | ⟨-, skipped⟩ | broken
  · exact Or.inl same
  · exact absurd skipped going
  · exact Or.inr broken

theorem wp_copyBlock_skip {blockSize : Nat} {forgetCache : Bool} {v : DataLoop} {s : State}
    (between : BetweenBlocks target v trace) :
    wp record (copyBlock cfg fuel target source blockSize forgetCache v) s (fun r _ m => BlockCopied target r m)
      (fun _ m => SkipOpen target m) trace := by
  rcases between with ⟨clear, kept⟩ | broken
  · simp only [copyBlock, Action.wp_bind, wp_setProgress]
    refine Action.wp_mono (wp_readBlock_noSkip clear) ?_ fun _ _ clear => Or.inl clear
    rintro ⟨result, skip, data⟩ s m clear
    simp only [Action.wp_ite, Action.wp_bind, Action.wp_pure, wp_setProgress]
    refine ⟨fun _ => Or.inl clear, fun more => ?_⟩
    obtain rfl : skip = false := by
      cases skip with
      | true => simp at more
      | false => rfl
    refine Action.wp_mono (wp_writeBlock_skip clear) ?_ fun _ _ stopped => stopped
    rintro ⟨result, skip, left⟩ s m (written : BlockWritten target skip m)
    have asked : ∀ {s : State} {m : Trace U}, BlockWritten target skip m →
        wp record (callProgressOften cfg (.dataBlock skip) .copying) s (fun _ _ m => BlockWritten target skip m)
          (fun _ m => SkipOpen target m) m :=
      fun written => wp_callProgressOften fun n a s' sent => written.notify (by simp [sent.site])
    simp only [Action.wp_bind, doIf, Action.wp_ite, tell, wp_ask, Action.wp_pure]
    refine ⟨fun _ _ _ => ?_, fun _ => ?_⟩
    · exact Action.wp_mono (asked written.forget.forget) (fun _ _ _ told => ⟨fun _ => told.ends, fun _ =>
        ⟨fun _ => told.ends, fun going => ⟨fun _ => told.again going, fun _ => told.ends⟩⟩⟩) fun _ _ stopped => stopped
    · exact Action.wp_mono (asked written) (fun _ _ _ told => ⟨fun _ => told.ends, fun _ =>
        ⟨fun _ => told.ends, fun going => ⟨fun _ => told.again going, fun _ => told.ends⟩⟩⟩) fun _ _ stopped => stopped
  · refine Action.wp_mono (wp_broken broken) (fun r s m broken => ?_) fun _ _ broken => Or.inr (Or.inr broken)
    cases r <;> first | exact Or.inr broken | exact Or.inr (Or.inr broken)

theorem wp_copyFileData_skip {sourceBlockSize targetBlockSize : UInt32} {s : State} :
    wp record (copyFileData cfg fuel target source sourceBlockSize targetBlockSize) s
      (fun r _ m => DataSkipped target r.2 m) (fun _ m => SkipOpen target m) [] := by
  simp only [copyFileData, Action.wp_bind]
  apply wp_callProgressOften
  intro n a s' sent
  have told : NoSkip target (record [] (⟨.notify n, a⟩ : XferEvent U)) := by
    apply noSkip_nil.resting
    rintro ⟨site, -⟩
    rw [sent.site] at site
    cases site
  simp only [Action.wp_ite, Action.wp_pure, Action.wp_bind, Action.wp_get]
  refine ⟨fun _ => Or.inl told, fun _ => ?_⟩
  have copied : wp record (loop (copyBlock cfg fuel target source (max sourceBlockSize targetBlockSize).toNat
      (s'.progress.bytesTotal ≥ dropCacheSizeLimit)) fuel ⟨false, 0, 0⟩) s' (fun r _ m => DataSkipped target r.2 m)
      (fun _ m => SkipOpen target m) (record [] ⟨.notify n, a⟩) := by
    refine Action.wp_loop (fun v _ m => BetweenBlocks target v m) ?_ ?_ fuel ⟨false, 0, 0⟩ (Or.inl ⟨told, rfl⟩)
    · intro v s m between
      refine Action.wp_mono (wp_copyBlock_skip between) (fun r s m copied => ?_) fun _ _ stopped => stopped
      cases r <;> exact copied
    · intro v s m between
      rcases between with ⟨clear, -⟩ | broken
      · exact Or.inl clear
      · exact Or.inr (Or.inr broken)
  refine Action.wp_mono copied ?_ fun _ _ stopped => stopped
  rintro ⟨result, skip⟩ s m (ends : DataSkipped target skip m)
  simp only [doIf, Action.wp_ite, Action.wp_bind, wp_setProgress, Action.wp_pure]
  refine ⟨fun _ => ?_, fun _ => ends⟩
  apply wp_callProgressOften
  intro n a s' sent
  have site : n.site ≠ .handleError := by
    simp [sent.site]
  rcases ends with clear | ⟨done, skipped⟩ | broken
  · exact Or.inl (clear.resting fun skips => site skips.1)
  · exact Or.inr (Or.inl ⟨done.snoc site, skipped⟩)
  · exact Or.inr (Or.inr (broken.snoc _))

/-- A skipped write ends the copying of the file just where it took all its bytes. -/
theorem copyFileData_skip_iff (cfg : Config U) (fuel : Nat) (target source : Handle)
    (sourceBlockSize targetBlockSize : UInt32) (s : State) (trace : Trace U)
    (out : Outcome Stop ((VfsResult × Bool) × State))
    (run : Runs (copyFileData cfg fuel target source sourceBlockSize targetBlockSize s) trace out) :
    (∀ buffer r back, SkippedWrite target trace buffer r back →
        (∀ e ∈ back, Resting target e) ∧ ∃ result s', out = .returned ((result, true), s')) ↔
      ∀ buffer r back, SkippedWrite target trace buffer r back → r.2.1 = buffer.length := by
  have seen := Prog.wp_runs record run
    (@wp_copyFileData_skip _ target cfg fuel source sourceBlockSize targetBlockSize s)
  rw [foldl_record, List.nil_append] at seen
  have quiet : ∀ {P Q : ∀ buffer : Bytes, VfsResult × Fin (buffer.length + 1) → Trace U → Prop},
      NoSkip target trace → ((∀ buffer r back, SkippedWrite target trace buffer r back → P buffer r back) ↔
        ∀ buffer r back, SkippedWrite target trace buffer r back → Q buffer r back) :=
    fun clear => ⟨fun _ buffer r back skipped => absurd skipped (clear buffer r back),
      fun _ buffer r back skipped => absurd skipped (clear buffer r back)⟩
  have broken_iff : SkipBroken target trace → ((∀ buffer r back, SkippedWrite target trace buffer r back →
        (∀ e ∈ back, Resting target e) ∧ ∃ result s', out = .returned ((result, true), s')) ↔
      ∀ buffer r back, SkippedWrite target trace buffer r back → r.2.1 = buffer.length) := by
    rintro ⟨buffer, r, back, skipped, short, e, member, moved⟩
    exact ⟨fun final => absurd ((final buffer r back skipped).1 e member) moved,
      fun whole => absurd (whole buffer r back skipped) short⟩
  cases out with
  | returned value =>
    obtain ⟨⟨result, skip⟩, s'⟩ := value
    rcases (seen : DataSkipped target skip trace) with clear | ⟨done, rfl⟩ | broken
    · exact quiet clear
    · exact ⟨fun _ buffer r back skipped => (done.only skipped).1,
        fun _ buffer r back skipped => ⟨(done.only skipped).2, result, s', rfl⟩⟩
    · exact broken_iff broken
  | stopped reason =>
    rcases (seen : SkipOpen target trace) with clear | ⟨buffer, r, skipped, short⟩ | broken
    · exact quiet clear
    · refine ⟨fun final => ?_, fun whole => absurd (whole buffer r [] skipped) short⟩
      obtain ⟨-, result, s', same⟩ := final buffer r [] skipped
      cases same
    · exact broken_iff broken

/-- The first write takes one byte of two and fails, and the callback has it skipped. -/
def fullReply : Bytes × Bool → (op : Op Bytes) → op.Reply × (Bytes × Bool)
  | e, .notify n => (⟨0, if n.site = .handleError then errorActionSkip else 1, 1, n.info.duplicateName⟩, e)
  | e, .write _ buffer =>
    (if e.2 then (.ok, Fin.last buffer.length) else (.noSpace, ⟨min 1 buffer.length, by omega⟩), (e.1, true))
  | e, .read _ bytes => (flakyRead e.1 bytes, (e.1.drop bytes, e.2))
  | e, op => (calmReply op, e)

def fullRun : Trace Bytes × Outcome Stop ((VfsResult × Bool) × State) :=
  Prog.exec fullReply (flakyCopy { overwriteMode := .query }) ([1, 2], false)

theorem copyFileData_skip_iff_full :
    (∀ buffer r back, SkippedWrite 3 fullRun.1 buffer r back →
        (∀ e ∈ back, Resting 3 e) ∧ ∃ result s', fullRun.2 = .returned ((result, true), s')) ↔
      ∀ buffer r back, SkippedWrite 3 fullRun.1 buffer r back → r.2.1 = buffer.length :=
  copyFileData_skip_iff { plainConfig {} with errorMode := .query } 6 3 2 2 1 { overwriteMode := .query } _ _
    (Prog.exec_runs fullReply _ ([1, 2], false))

/-- The byte that is left is written, and the file is not given up. -/
theorem copyFileData_skip_goes_on : ∃ trace out, Runs (flakyCopy { overwriteMode := .query }) trace out ∧
    ¬ ∀ buffer r back, SkippedWrite 3 trace buffer r back →
      (∀ e ∈ back, Resting 3 e) ∧ ∃ result s', out = .returned ((result, true), s') := by
  refine ⟨_, _, Prog.exec_runs fullReply _ ([1, 2], false), fun final => ?_⟩
  obtain ⟨resting, -⟩ := final [1, 2] (.noSpace, 1) _ ⟨[_, _], _, rfl, nofun, rfl, rfl⟩
  exact resting _ List.mem_cons_self rfl

end Skipping

end GnomeVfs.Xfer
