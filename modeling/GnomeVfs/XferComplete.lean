import GnomeVfs.XferQuiet

/- The functions that copy a file or a link return `OK` without a skip only when they have
copied it completely, in a run without a harmful step. -/
namespace GnomeVfs.Xfer

open Interaction
open Interaction.Action (Shows shows_any shows_pure shows_halt shows_ask shows_of_record Round Keeps keeps_pure)

variable {U : Type} {cfg : Config U} {strict : Bool}

abbrev Calm (cfg : Config U) (strict : Bool) (e : XferEvent U) : Prop := harmful cfg strict e = false

variable {trace : Trace U} {result : VfsResult} {h : Handled}

section Calls

variable {allowed : XferEvent U → Prop}

/-- Nothing is read or written. -/
structure Idle (trace : Trace U) : Prop where
  reads : ∀ h, trace.flatMap (bytesRead h) = []
  writes : ∀ h, trace.flatMap (bytesWritten h) = []

theorem idle_nil : Idle ([] : Trace U) := ⟨fun _ => rfl, fun _ => rfl⟩

theorem idle_notify (n : Notice) (a : Answer) : Idle [(⟨.notify n, a⟩ : XferEvent U)] :=
  ⟨fun _ => rfl, fun _ => rfl⟩

theorem Quiet.idle (quiet : Quiet trace) : Idle trace := by
  have unread : ∀ h, ∀ e ∈ trace, bytesRead h e = [] ∧ bytesWritten h e = [] := by
    rintro h ⟨op, r⟩ member
    have still := quiet _ member
    cases op <;> first | exact ⟨rfl, rfl⟩ | exact still.elim
  exact ⟨fun h => List.flatMap_eq_nil_iff.mpr fun e member => (unread h e member).1,
    fun h => List.flatMap_eq_nil_iff.mpr fun e member => (unread h e member).2⟩

theorem Idle.append {front back : Trace U} (first : Idle front) (second : Idle back) :
    Idle (front ++ back) := by
  constructor
  · intro h
    rw [List.flatMap_append, first.reads h, second.reads h, List.append_nil]
  · intro h
    rw [List.flatMap_append, first.writes h, second.writes h, List.append_nil]

variable {site : Site} {phase : Phase} {source target : U}

theorem Handled.Of.skipped (handled : h.Of result) (failed : result ≠ .ok) (ok : h.result = .ok) : h.skip = true := by
  rcases handled with rfl | rfl | rfl | rfl
  · exact absurd ok failed
  · cases ok
  · rfl
  · exact absurd ok failed

theorem Handled.Of.ne_eof (handled : h.Of result) (other : result ≠ .eof) : h.result ≠ .eof := by
  rcases handled with rfl | rfl | rfl | rfl
  · exact other
  · simp
  · simp
  · exact other

/-- An error is answered with one of the actions there are. -/
def Regular : XferEvent U → Prop
  | ⟨.notify n, a⟩ => n.site = .handleError →
      n.heard a errorActionAbort ∈ [errorActionAbort, errorActionRetry, errorActionSkip]
  | _ => True

instance : DecidablePred (Regular (U := U))
  | ⟨.notify n, a⟩ => inferInstanceAs (Decidable (n.site = .handleError →
      n.heard a errorActionAbort ∈ [errorActionAbort, errorActionRetry, errorActionSkip]))
  | ⟨.getFileInfo _ _, _⟩ | ⟨.getFileInfoFromHandle _, _⟩ | ⟨.unlink _, _⟩ | ⟨.removeDirectory _, _⟩
  | ⟨.makeDirectory _, _⟩ | ⟨.openDirectory _ _, _⟩ | ⟨.readNext _, _⟩ | ⟨.closeDirectory _, _⟩
  | ⟨.openUri _, _⟩ | ⟨.createUri _ _, _⟩ | ⟨.read _ _, _⟩ | ⟨.write _ _, _⟩ | ⟨.forgetCache _ _ _, _⟩
  | ⟨.close _, _⟩ | ⟨.createSymbolicLink _ _, _⟩ | ⟨.setFileInfo _ _ _, _⟩ | ⟨.move _ _ _, _⟩
  | ⟨.checkSameFs _ _, _⟩ | ⟨.volumeFreeSpace _, _⟩ | ⟨.isInSubdir _ _, _⟩ | ⟨.undefined, _⟩ =>
    inferInstanceAs (Decidable True)

theorem shows_handleError :
    Shows allowed (handleError cfg result) (fun h trace => h.Of result ∧ Idle trace) := by
  apply shows_of_record
  intro s
  apply wp_handleError
  · exact fun _ => ⟨by simp [Handled.Of], idle_nil⟩
  · intro _ n a _ h _ _ _ handled
    exact ⟨handled, idle_notify n a⟩

/-- The callback is asked about an `EOF` that a call answers, and its answers are among the actions. -/
def Asked (cfg : Config U) (allowed : XferEvent U → Prop) : Prop :=
  cfg.errorMode = .query ∧ ∀ n a, allowed ⟨.notify n, a⟩ → n.site = .handleError → n.info.vfsStatus = .eof →
    n.heard a errorActionAbort ∈ [errorActionAbort, errorActionRetry, errorActionSkip]

/-- Where the callback is asked about an `EOF` or the error is another one, the handler does not hand
on an `EOF`, unless the call is made once more. -/
theorem shows_handleError_eof (known : result ≠ .eof ∨ Asked cfg allowed) :
    Shows allowed (handleError cfg result) (fun h trace => h.Of result ∧ Idle trace ∧
      (¬ h.retry = true → h.result ≠ .eof)) := by
  by_cases eof : result = .eof
  · obtain ⟨mode, regular⟩ := known.resolve_left (not_not.mpr eof)
    have seen : Shows allowed (handleError cfg result) (fun h trace => ∃ n a, n.site = .handleError ∧
        n.info.vfsStatus = result ∧ h = Handled.answered (n.heard a errorActionAbort) result ∧
        trace = [⟨.notify n, a⟩]) := by
      apply shows_of_record
      intro s
      apply wp_handleError_answered
      · intro abort
        rw [mode] at abort
        cases abort
      · exact fun _ n a _ site _ _ status => ⟨n, a, site, status, rfl, rfl⟩
    apply seen.and_allowed.mono
    rintro h _ ⟨⟨n, a, site, status, rfl, rfl⟩, calm⟩
    refine ⟨Handled.answered_of _ _, idle_notify n a, ?_⟩
    have action := regular n a (calm _ List.mem_cons_self) site (status.trans eof)
    simp only [List.mem_cons, List.not_mem_nil, or_false] at action
    rcases action with heard | heard | heard <;> simp [heard, Handled.answered]
  · apply shows_handleError.mono
    exact fun h trace ⟨handled, idle⟩ => ⟨handled, idle, fun _ => handled.ne_eof eof⟩

theorem calm_asked (calm : cfg.errorMode = .abort → result ≠ .eof) :
    result ≠ .eof ∨ Asked cfg (Calm cfg strict) := by
  cases mode : cfg.errorMode with
  | abort => exact Or.inl (calm mode)
  | query =>
    refine Or.inr ⟨mode, fun n a calm site eof => ?_⟩
    simpa [Calm, harmful, site, eof, or_iff_not_imp_left] using calm

theorem shows_handleOverwrite :
    Shows allowed (handleOverwrite cfg result) (fun o _ => o.Of result) := by
  apply shows_of_record
  intro s
  apply wp_handleOverwrite
  · exact fun _ handled _ => handled
  · exact fun _ _ _ _ _ _ _ handled => handled

/-- A notification is one event. -/
def Notifies (site : Site) (answer : Int) (trace : Trace U) : Prop :=
  ∃ n a, n.site = site ∧ answer = n.heard a 1 ∧ trace = [⟨.notify n, a⟩]

theorem Notifies.idle {answer : Int} (sent : Notifies site answer trace) :
    Idle trace := by
  obtain ⟨n, a, _, _, rfl⟩ := sent
  exact idle_notify n a

theorem shows_callProgressOften :
    Shows allowed (callProgressOften cfg site phase) (Notifies site) := by
  apply shows_of_record
  intro s
  apply wp_callProgressOften
  exact fun n a _ sent => ⟨n, a, sent.site, rfl, rfl⟩

theorem shows_callProgressWithUrisOften :
    Shows allowed (callProgressWithUrisOften cfg site source target phase)
      (fun answer trace => Notifies site answer trace ∧ ∀ e ∈ trace, allowed e) := by
  apply Shows.and_allowed
  apply shows_of_record
  intro s
  apply wp_callProgressWithUrisOften
  exact fun n a _ sent => ⟨n, a, sent.site, rfl, rfl⟩

theorem shows_setProgress {f : ProgressInfo → ProgressInfo} :
    Shows allowed (setProgress f : XferM U Unit) (fun _ trace => trace = []) :=
  shows_of_record fun _ => rfl

theorem shows_progressSetSourceTargetUris :
    Shows allowed (progressSetSourceTargetUris cfg source target) (fun _ trace => trace = []) :=
  shows_of_record fun _ => rfl

theorem shows_call {op : Op U} :
    Shows allowed (ask op) (fun a trace => allowed ⟨op, a⟩ ∧ trace = [⟨op, a⟩]) :=
  shows_ask fun _ calm => ⟨calm, rfl⟩

theorem shows_tell {op : Op U} : Shows allowed (tell op) (fun _ trace => ∃ a, trace = [⟨op, a⟩]) := by
  apply Shows.bind shows_call
  rintro a _ ⟨_, rfl⟩
  exact shows_pure ⟨a, rfl⟩

theorem eofToOk_ok (ok : eofToOk result = .ok) : result = .ok ∨ result = .eof := by
  unfold eofToOk at ok
  split at ok
  · exact Or.inr ‹_›
  · exact Or.inl ok

theorem eofToOk_ne_eof (result : VfsResult) : eofToOk result ≠ .eof := by
  unfold eofToOk
  split
  · simp
  · assumption

end Calls

variable {skip : Bool}

section Data

/-- The replies are those of a file with an end, and the callback is asked about an `EOF` of a write. -/
structure Sound (cfg : Config U) (source : Handle) (allowed : XferEvent U → Prop) : Prop where
  read : ∀ bytes r, allowed ⟨.read source bytes, r⟩ → r.1 = .eof → r.2.1 = []
  write : ∀ target buffer r, allowed ⟨.write target buffer, r⟩ → r.1 ≠ .eof ∨ Asked cfg allowed

theorem calm_sound (cfg : Config U) (strict : Bool) (source : Handle) : Sound cfg source (Calm cfg strict) := by
  constructor
  · intro bytes r calm
    simpa [Calm, harmful] using calm
  · intro target buffer r calm
    exact calm_asked (by simpa [Calm, harmful] using calm)

variable {allowed : XferEvent U → Prop} {fuel : Nat} {source target : Handle} {blockSize : Nat}

/-- What `readBlock` returns without a skip is all that it has read. -/
def BlockRead (source : Handle) (blockSize : Nat) (r : VfsResult × Bool × Bytes)
    (trace : Trace U) : Prop :=
  (∀ h, trace.flatMap (bytesWritten h) = []) ∧
    (eofToOk r.1 = .ok → r.2.1 = false → trace.flatMap (bytesRead source) = r.2.2 ∧
      (r.1 = .eof → r.2.2 = []) ∧
      ∃ before reply, trace = before ++ [⟨.read source blockSize, reply⟩] ∧ reply.1 = r.1 ∧ reply.2.1 = r.2.2)

theorem shows_readBlock (sound : Sound cfg source allowed) :
    Shows allowed (readBlock cfg fuel source blockSize skip) (BlockRead source blockSize) := by
  apply Shows.loop (fun _ acc => Idle acc) _ fuel skip idle_nil
  intro skip acc idle
  apply Shows.bind shows_call
  rintro ⟨result, data⟩ _ ⟨calm, rfl⟩
  apply Shows.ite
  · intro failed
    simp only [ne_eq, Bool.and_eq_true, decide_eq_true_eq] at failed
    have unread : Idle [(⟨.read source blockSize, (result, data)⟩ : XferEvent U)] :=
      ⟨by simp [bytesRead, failed], fun _ => rfl⟩
    apply Shows.bind shows_handleError
    rintro h front ⟨handled, quiet⟩
    have idle := idle.append (unread.append quiet)
    apply Shows.ite
    · intro _
      apply shows_pure
      rw [List.append_nil]
      exact idle
    · intro _
      apply shows_pure
      rw [List.append_nil]
      refine ⟨idle.writes, fun ok kept => ?_⟩
      rcases eofToOk_ok ok with ok | eof
      · simp [handled.skipped failed.1 ok] at kept
      · exact absurd eof (handled.ne_eof failed.2)
  · intro passed
    apply shows_pure
    refine ⟨by simp [idle.writes, bytesWritten], fun _ _ => ⟨?_, ?_, acc, (result, data), rfl, rfl, rfl⟩⟩
    · have counted : result = .ok ∨ result = .eof := by
        simpa [imp_iff_or_not, or_comm] using passed
      simp [idle.reads, bytesRead, counted]
    · exact sound.read blockSize (result, data) calm

/-- What `writeBlock` returns `OK` for without a skip is written. -/
theorem shows_writeBlock (sound : Sound cfg source allowed) {buffer : Bytes} :
    Shows allowed (writeBlock cfg fuel target buffer skip) (fun r trace =>
      r.1 ≠ .eof ∧ (∀ h, trace.flatMap (bytesRead h) = []) ∧
        (r.1 = .ok → r.2.1 = false → trace.flatMap (bytesWritten target) = buffer)) := by
  apply Shows.loop (fun x acc => (∀ h, acc.flatMap (bytesRead h) = []) ∧
    acc.flatMap (bytesWritten target) ++ x.1 = buffer) _ fuel (buffer, skip) ⟨fun _ => rfl, rfl⟩
  rintro ⟨left, skip⟩ acc ⟨unread, written⟩
  apply Shows.bind shows_call
  rintro ⟨result, count⟩ _ ⟨calm, rfl⟩
  have known : result ≠ .eof ∨ Asked cfg allowed := sound.write target left (result, count) calm
  have split : ∀ rest : Trace U, Idle rest →
      (acc ++ (⟨.write target left, (result, count)⟩ :: rest)).flatMap (bytesWritten target) ++ left.drop count =
        buffer := by
    intro rest idle
    simp [idle.writes, bytesWritten, ← written]
  have silent : ∀ rest : Trace U, Idle rest → ∀ h,
      (acc ++ (⟨.write target left, (result, count)⟩ :: rest)).flatMap (bytesRead h) = [] := by
    intro rest idle h
    simp [idle.reads, unread, bytesRead]
  dsimp only
  apply Shows.ite
  · intro failed
    apply Shows.bind (shows_handleError_eof known)
    rintro h rest ⟨handled, idle, retried⟩
    apply Shows.ite
    · intro _
      apply shows_pure
      rw [List.append_nil]
      exact ⟨silent rest idle, split rest idle⟩
    · intro done
      apply shows_pure
      rw [List.append_nil]
      have unretried : h.retry ≠ true := fun retry => done (by simp [retry])
      refine ⟨retried unretried, silent rest idle, fun ok kept => ?_⟩
      simp [handled.skipped failed ok] at kept
  · intro passed
    apply Shows.ite
    · intro _
      exact shows_pure ⟨silent [] idle_nil, split [] idle_nil⟩
    · intro complete
      apply shows_pure
      have ok : result = .ok := not_not.mp passed
      refine ⟨by simp [ok], silent [] idle_nil, fun _ _ => ?_⟩
      have all := split [] idle_nil
      rw [not_not.mp complete, List.append_nil] at all
      exact all

/-- Between the rounds all that has been read is written. -/
def InStep (source target : Handle) (v : DataLoop) (acc : Trace U) : Prop :=
  v.skip = false ∧ acc.flatMap (bytesWritten target) = acc.flatMap (bytesRead source)

theorem shows_forgetCache {c : Prop} [Decidable c] {offset size : UInt64} :
    Shows allowed (doIf c do
      tell (.forgetCache source offset size)
      tell (.forgetCache target offset size)) (fun _ trace => Idle trace) := by
  apply Shows.ite
  · intro _
    apply Shows.bind shows_tell
    rintro _ _ ⟨a, rfl⟩
    apply shows_tell.mono
    rintro _ _ ⟨b, rfl⟩
    exact ⟨fun _ => rfl, fun _ => rfl⟩
  · exact fun _ => shows_pure idle_nil

theorem shows_copyBlock (sound : Sound cfg source allowed) (positive : 0 < blockSize) {forgetCache : Bool}
    {v : DataLoop} {acc : Trace U} (inv : InStep source target v acc) :
    Shows allowed (copyBlock cfg fuel target source blockSize forgetCache v)
      (Round (InStep source target)
        (fun r trace => eofToOk r.1 = .ok → r.2 = false → DataCopied source target trace) acc) := by
  obtain ⟨unskipped, level⟩ := inv
  apply Shows.bind shows_setProgress
  rintro _ _ rfl
  apply Shows.bind (shows_readBlock sound)
  rintro ⟨result, skip, data⟩ reads ⟨unwritten, complete⟩
  apply Shows.ite
  · intro last
    apply shows_pure
    intro (ok : eofToOk result = .ok) (kept : skip = false)
    obtain ⟨all, empty, before, reply, rfl, sameResult, sameData⟩ := complete ok kept
    have nothing : data = [] := by
      rcases eofToOk_ok ok with ok | eof
      · simpa [ok, kept] using last
      · exact empty eof
    constructor
    · simp only [List.nil_append, List.append_nil, List.flatMap_append, unwritten, level, all, nothing]
    · refine ⟨acc ++ before, blockSize, reply, by simp, positive, ?_⟩
      rw [sameResult, sameData]
      rcases eofToOk_ok ok with ok | eof
      · exact Or.inr ⟨ok, nothing⟩
      · exact Or.inl eof
  · intro more
    obtain ⟨⟨rfl, _⟩, kept⟩ : (result = .ok ∧ data ≠ []) ∧ skip = false := by simpa [and_assoc] using more
    obtain ⟨all, _⟩ := complete rfl kept
    apply Shows.bind shows_setProgress
    rintro _ _ rfl
    apply Shows.bind (shows_writeBlock sound)
    rintro ⟨result, skip, left⟩ writes ⟨known, unread, done⟩
    apply Shows.bind shows_forgetCache
    intro _ drops forgets
    apply Shows.bind shows_setProgress
    rintro _ _ rfl
    apply Shows.bind shows_callProgressOften
    intro answer sent notified
    apply Shows.ite
    · exact fun _ => shows_pure fun ok => by simp [eofToOk] at ok
    · intro _
      apply Shows.ite
      · exact fun skipped => shows_pure fun _ kept => by simp [skipped] at kept
      · intro unskipped
        apply Shows.ite
        · intro ok
          have unskipped : skip = false := by simpa using unskipped
          apply shows_pure
          refine ⟨unskipped, ?_⟩
          simp only [List.nil_append, List.append_nil, List.flatMap_append, unwritten, unread, level, all,
            forgets.reads, forgets.writes, notified.idle.reads, notified.idle.writes, done ok unskipped]
        · intro failed
          apply shows_pure
          intro ok
          rcases eofToOk_ok ok with ok | eof
          · exact absurd ok failed
          · exact absurd eof known

theorem blockSizeOf_pos (info : FileInfo) : 0 < blockSizeOf info := by
  unfold blockSizeOf
  split
  · rename_i sized
    simp only [Bool.and_eq_true, decide_eq_true_eq] at sized
    exact sized.2
  · decide

theorem max_toNat_pos {a b : UInt32} (positive : 0 < a) : 0 < (max a b).toNat := by
  show 0 < UInt32.toNat (if _ then _ else _)
  split
  · rename_i le
    exact UInt32.lt_iff_toNat_lt.mp (UInt32.lt_of_lt_of_le positive le)
  · exact UInt32.lt_iff_toNat_lt.mp positive

theorem shows_copyFileData (sound : Sound cfg source allowed) {sourceBlockSize targetBlockSize : UInt32}
    (positive : 0 < (max sourceBlockSize targetBlockSize).toNat) :
    Shows allowed (copyFileData cfg fuel target source sourceBlockSize targetBlockSize)
      (fun r trace => r.1 ≠ .eof ∧ (r = (.ok, false) →
        ∃ gap data back, trace = gap ++ data ++ back ∧ (Quiet gap ∧ Quiet back) ∧
          (∀ e ∈ data, Carries source target e) ∧ DataCopied source target data)) := by
  apply Shows.bind (shows_callProgressOften.and_makes (makes_callProgressOften (P := Still) fun _ _ => trivial))
  rintro answer sent ⟨_, (notified : Quiet sent)⟩
  apply Shows.ite
  · intro _
    exact shows_pure ⟨by simp, by simp⟩
  · intro _
    apply Shows.get
    intro s
    apply Shows.bind (Shows.and_makes
      (Shows.loop (InStep source target) (fun _ _ inv => shows_copyBlock sound positive inv) fuel _ ⟨rfl, rfl⟩)
      (Keeps.loop (fun _ => makes_copyBlock) _ _))
    rintro ⟨result, skip⟩ data ⟨copied, carried⟩
    apply Shows.bind (shows_any.and_makes makes_dataEnd)
    rintro _ back ⟨_, quiet⟩
    apply shows_pure
    refine ⟨eofToOk_ne_eof result, fun complete => ?_⟩
    obtain ⟨ok, kept⟩ := Prod.mk.inj complete
    exact ⟨sent, data, back, by simp, ⟨notified, quiet⟩, carried, copied ok kept⟩

end Data

variable {Q : Trace U → Prop} {info : FileInfo} {sourceHandle targetHandle : Handle}

section Objects

variable {fuel : Nat} {source target : U}

/-- The object is copied when the function returns `OK` without a skip; `EOF` it never returns. -/
def Whole (Q : Trace U → Prop) (r : VfsResult × Bool) (trace : Trace U) : Prop :=
  r.1 ≠ .eof ∧ (r = (.ok, false) → Q trace)

theorem whole_failed (known : result ≠ .eof) (failed : result ≠ .ok) :
    Whole Q (result, skip) trace := ⟨known, fun same => absurd (congrArg Prod.fst same) failed⟩

theorem whole_skipped : Whole Q (.ok, true) trace :=
  ⟨by simp, by simp⟩

theorem Handled.Of.whole (handled : h.Of result) (known : h.result ≠ .eof) (failed : result ≠ .ok) :
    Whole Q (h.result, h.skip) trace := by
  refine ⟨known, fun same => ?_⟩
  obtain ⟨ok, kept⟩ := Prod.mk.inj same
  simp [handled.skipped failed ok] at kept

theorem shows_openSourceLoop :
    Shows (Calm cfg strict) (openSourceLoop cfg fuel source) (fun r trace => r.1 ≠ .eof ∧
      match r.2.2 with
      | none => r.1 = .ok → r.2.1 = true
      | some h => ∃ front, trace = front ++ [⟨.openUri source, (.ok, h)⟩]) := by
  apply Shows.loop (fun _ _ => True) _ fuel false trivial
  intro skip acc _
  apply Shows.bind shows_call
  rintro ⟨result, handle⟩ _ ⟨calm, rfl⟩
  have known : cfg.errorMode = .abort → result ≠ .eof := by simpa [Calm, harmful] using calm
  apply Shows.ite
  · intro failed
    apply Shows.bind (shows_handleError_eof (calm_asked known))
    rintro h _ ⟨handled, _, retried⟩
    apply Shows.ite
    · exact fun _ => shows_pure trivial
    · exact fun stays => shows_pure ⟨retried stays, handled.skipped failed⟩
  · intro passed
    have ok : result = .ok := by simpa using passed
    subst ok
    exact shows_pure ⟨by simp, acc, rfl⟩

theorem shows_xferOpenSource :
    Shows (Calm cfg strict) (xferOpenSource cfg fuel source) (fun r trace => r.1 ≠ .eof ∧
      match r.2.2 with
      | none => r.1 = .ok → r.2.1 = true
      | some h => ∃ front back, trace = front ++ ⟨.openUri source, (.ok, h)⟩ :: back) := by
  apply Shows.bind shows_any
  intro _ sent _
  apply Shows.bind shows_openSourceLoop
  rintro ⟨result, skip, handle⟩ opens ⟨known, opened⟩
  apply Shows.get
  intro s
  cases handle with
  | none => exact shows_pure ⟨known, opened⟩
  | some h =>
    obtain ⟨front, rfl⟩ := opened
    apply Shows.ite
    · intro _
      apply Shows.bind shows_call
      rintro ⟨result, info⟩ _ ⟨calm, rfl⟩
      have known : result ≠ .eof := by simpa [Calm, harmful] using calm
      apply Shows.bind shows_any
      intro _ rest _
      exact shows_pure ⟨known, sent ++ front, ⟨.getFileInfoFromHandle h, (result, info)⟩ :: rest, by simp⟩
    · exact fun _ => shows_pure ⟨known, sent ++ front, [], by simp⟩

theorem Overwritten.Of.result_eq {o : Overwritten} (handled : o.Of .fileExists) : o.result = .fileExists := by
  rcases handled with rfl | rfl | rfl | rfl <;> rfl

theorem shows_xferCreateTarget :
    Shows (Calm cfg strict) (xferCreateTarget cfg fuel target) (fun r trace => r.1 ≠ .eof ∧
      (r.1 = .ok → r.2.1 = false → ∃ front exclusive,
        trace = front ++ [⟨.createUri target exclusive, (.ok, r.2.2)⟩])) := by
  apply Shows.get
  intro s
  apply Shows.loop (fun _ _ => True) _ fuel _ trivial
  rintro ⟨exclusive, skip⟩ acc _
  apply Shows.bind shows_call
  rintro ⟨result, handle⟩ _ ⟨calm, rfl⟩
  have known : cfg.errorMode = .abort → result ≠ .eof := by simpa [Calm, harmful] using calm
  apply Shows.ite
  · rintro (rfl : result = .fileExists)
    apply Shows.bind shows_handleOverwrite
    intro o _ handled
    apply Shows.ite
    · exact fun _ => shows_pure trivial
    · intro _
      apply shows_pure
      simp [Round, handled.result_eq]
  · intro _
    apply Shows.ite
    · intro failed
      apply Shows.bind (shows_handleError_eof (calm_asked known))
      rintro h _ ⟨handled, _, retried⟩
      apply Shows.ite
      · exact fun _ => shows_pure trivial
      · intro stays
        apply shows_pure
        refine ⟨retried stays, fun ok kept => ?_⟩
        simp [handled.skipped failed ok] at kept
    · intro passed
      have ok : result = .ok := by simpa using passed
      subst ok
      exact shows_pure ⟨by simp, fun _ _ => ⟨acc, exclusive, rfl⟩⟩

theorem shows_createLink {linkName : Bytes} (x : Bool × Bool) (acc : Trace U) :
    Shows (Calm cfg strict) (createLink cfg source target linkName x) (Round (fun _ _ => True)
      (Whole fun trace => ⟨.createSymbolicLink target linkName, VfsResult.ok⟩ ∈ trace) acc) := by
  obtain ⟨triedRemove, skip⟩ := x
  apply Shows.bind shows_call
  rintro result _ ⟨calm, rfl⟩
  have known : cfg.errorMode = .abort → result ≠ .eof := by simpa [Calm, harmful] using calm
  apply Shows.ite
  · rintro rfl
    apply Shows.get
    intro s
    apply Shows.ite
    · intro _
      apply Shows.bind shows_any
      exact fun _ _ _ => shows_pure (whole_failed (by simp) (by simp))
    · intro _
      apply Shows.bind shows_handleOverwrite
      intro o _ handled
      apply Shows.bind shows_any
      intro _ _ _
      apply Shows.ite
      · exact fun _ => shows_pure trivial
      · intro _
        apply shows_pure
        rw [handled.result_eq]
        exact whole_failed (by simp) (by simp)
  · intro _
    apply Shows.ite
    · intro failed
      apply Shows.bind (shows_handleError_eof (calm_asked known))
      rintro h _ ⟨handled, _, retried⟩
      apply Shows.ite
      · exact fun _ => shows_pure trivial
      · exact fun stays => shows_pure (handled.whole (retried stays) failed)
    · intro passed
      have ok : result = .ok := by simpa using passed
      subst ok
      apply Shows.bind shows_any
      intro _ _ _
      apply Shows.ite
      · exact fun _ => shows_pure (whole_failed (by simp) (by simp))
      · exact fun _ => shows_pure ⟨by simp, fun _ => by simp⟩

theorem shows_copySymlink {linkName : Bytes} :
    Shows (Calm cfg strict) (copySymlink cfg fuel source target linkName)
      (Whole fun trace => ⟨.createSymbolicLink target linkName, VfsResult.ok⟩ ∈ trace) := by
  apply Shows.bind (Shows.loop (fun _ _ => True) (fun x acc _ => shows_createLink x acc) fuel _ trivial)
  rintro ⟨result, skip⟩ front made
  apply shows_pure
  rw [List.append_nil]
  cases skip with
  | true => exact whole_skipped
  | false => exact made

theorem shows_closeFiles (known : result ≠ .eof) :
    Shows (Calm cfg strict) (closeFiles cfg info target sourceHandle targetHandle result skip)
      (Whole fun _ => result = .ok ∧ skip = false) := by
  apply Shows.bind shows_call
  rintro closed _ ⟨calm, rfl⟩
  have first : closed ≠ .eof := by simpa [Calm, harmful] using calm
  apply Shows.ite
  · intro failed
    simp only [Bool.and_eq_true, decide_eq_true_eq] at failed
    apply Shows.bind shows_handleError
    rintro h _ ⟨handled, _⟩
    exact shows_pure (handled.whole (handled.ne_eof first) failed.2)
  · intro _
    apply Shows.bind shows_call
    rintro closed _ ⟨calm, rfl⟩
    have second : closed ≠ .eof := by simpa [Calm, harmful] using calm
    apply Shows.ite
    · intro failed
      simp only [Bool.and_eq_true, decide_eq_true_eq] at failed
      apply Shows.bind shows_handleError
      rintro h _ ⟨handled, _⟩
      exact shows_pure (handled.whole (handled.ne_eof second) failed.2)
    · intro _
      apply Shows.bind shows_any
      intro _ _ _
      apply shows_pure
      cases skip with
      | true => exact whole_skipped
      | false => exact ⟨known, fun same => ⟨congrArg Prod.fst same, rfl⟩⟩

theorem shows_finishFile (known : result ≠ .eof) :
    Shows (Calm cfg strict) (finishFile cfg info target sourceHandle targetHandle result skip)
      (Whole fun _ => result = .ok ∧ skip = false) := by
  apply Shows.ite
  · intro ok
    apply Shows.bind shows_any
    intro answer _ _
    have known : (if answer = 0 then VfsResult.interrupted else .ok) ≠ .eof := by split <;> simp
    apply (shows_closeFiles known).mono
    exact fun r _ closed => ⟨closed.1, fun same => ⟨ok, (closed.2 same).2⟩⟩
  · exact fun _ => shows_closeFiles known

/-- The notification about the target must not be answered with 0, for then the copying is
skipped and the result is still `OK`. -/
theorem shows_copyContents {targetDirInfo : Option FileInfo} :
    Shows (Calm cfg strict) (copyContents cfg fuel info targetDirInfo source target sourceHandle targetHandle)
      (Whole fun trace => ∃ gap data back, trace = gap ++ data ++ back ∧ (Quiet gap ∧ Quiet back) ∧
        (∀ e ∈ data, Carries sourceHandle targetHandle e) ∧ DataCopied sourceHandle targetHandle data) := by
  apply Shows.bind shows_callProgressWithUrisOften
  rintro answer sent ⟨⟨n, a, site, rfl, rfl⟩, calm⟩
  have goes : n.heard a 1 ≠ 0 := by simpa [Calm, harmful, site] using calm
  apply Shows.ite
  · intro _
    cases targetDirInfo with
    | none => exact shows_halt
    | some dirInfo =>
      apply (shows_copyFileData (calm_sound cfg strict sourceHandle) (max_toNat_pos (blockSizeOf_pos info))).mono
      rintro r trace ⟨known, copied⟩
      refine ⟨known, fun complete => ?_⟩
      obtain ⟨gap, data, back, rfl, ⟨before, behind⟩, carried, done⟩ := copied complete
      exact ⟨⟨.notify n, a⟩ :: gap, data, back, by simp, ⟨List.forall_mem_cons.mpr ⟨trivial, before⟩, behind⟩, carried,
        done⟩
  · intro stopped
    exact absurd goes stopped

theorem shows_copyFile {targetDirInfo : Option FileInfo} :
    Shows (Calm cfg strict) (copyFile cfg fuel info targetDirInfo source target)
      (Whole (FileCopied source target)) := by
  apply Shows.bind shows_setProgress
  rintro _ _ rfl
  apply Shows.bind shows_progressSetSourceTargetUris
  rintro _ _ rfl
  apply Shows.bind (shows_xferOpenSource.and_makes makes_xferOpenSource)
  rintro ⟨result, skip, handle⟩ opens ⟨⟨known, opened⟩, quiet⟩
  cases skip with
  | true => exact shows_pure whole_skipped
  | false =>
    cases handle with
    | none => exact shows_pure (whole_failed known fun ok => by simpa using opened ok)
    | some sourceHandle =>
      obtain ⟨front, rest, rfl⟩ := opened
      obtain ⟨first, second⟩ := List.forall_mem_append.mp quiet
      apply Shows.ite
      · exact fun failed => shows_pure (whole_failed known failed)
      · intro _
        apply Shows.bind shows_setProgress
        rintro _ _ rfl
        apply Shows.bind (shows_xferCreateTarget.and_makes makes_xferCreateTarget)
        rintro ⟨result, skip, targetHandle⟩ creates ⟨⟨known, created⟩, still⟩
        apply Shows.ite
        · intro _
          apply Shows.bind shows_any
          exact fun _ _ _ => shows_pure whole_skipped
        · intro kept
          apply Shows.ite
          · intro failed
            apply Shows.bind shows_any
            exact fun _ _ _ => shows_pure (whole_failed known failed)
          · intro passed
            obtain ⟨before, exclusive, rfl⟩ := created (not_not.mp passed) (by simpa using kept)
            apply Shows.bind shows_copyContents
            rintro ⟨result, skip⟩ contents ⟨known, copied⟩
            apply ((shows_finishFile known).and_makes makes_finishFile).mono
            rintro r closing ⟨⟨final, finished⟩, closes⟩
            refine ⟨final, fun complete => ?_⟩
            obtain ⟨rfl, rfl⟩ := finished complete
            obtain ⟨gap, data, back, rfl, ⟨starts, ends⟩, carried, done⟩ := copied rfl
            exact ⟨front, sourceHandle, rest ++ before, exclusive, targetHandle, gap, data, back ++ closing,
              by simp, ⟨first, Quiet.append (List.forall_mem_cons.mp second).2 (List.forall_mem_append.mp still).1, starts,
                ends.append closes⟩, carried, done⟩

end Objects

end GnomeVfs.Xfer
