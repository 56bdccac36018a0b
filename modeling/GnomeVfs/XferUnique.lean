import GnomeVfs.XferTransfer

/- With unique names a transfer is careful: it removes nothing, creates and moves without
replacing, and writes only into the file it has created last. -/
namespace GnomeVfs.Xfer

open Interaction
open Interaction.Action (wp Keeps keeps_pure keeps_halt)

variable {U : Type}

/-- `created` is the file that was created last, as long as no other has been opened. -/
structure Guard where
  created : Option Handle
  careful : Prop

/-- What is allowed, given the file that was created last. -/
def Allowed (sources : List U) (created : Option Handle) : XferEvent U → Prop
  | ⟨.unlink _, _⟩ => False
  | ⟨.removeDirectory _, _⟩ => False
  | ⟨.createUri _ exclusive, _⟩ => exclusive = true
  | ⟨.write handle _, _⟩ => created = some handle
  | ⟨.move source _ forceReplace, _⟩ => source ∈ sources ∧ forceReplace = false
  | _ => True

def createdNext (created : Option Handle) : XferEvent U → Option Handle
  | ⟨.createUri _ _, (result, handle)⟩ => if result = .ok then some handle else none
  | ⟨.openUri _, _⟩ => none
  | ⟨.close _, _⟩ => none
  | _ => created

def guardStep (sources : List U) (m : Guard) (e : XferEvent U) : Guard :=
  ⟨createdNext m.created e, m.careful ∧ Allowed sources m.created e⟩

variable {op : Op U} {m : Guard} {result : VfsResult} {skip : Bool} {s : State} {info : FileInfo}
  {sourceHandle targetHandle : Handle} {targetDirInfo : Option FileInfo}

section Programs

variable {cfg : Config U} {sources : List U} {M : OverwriteMode → Prop} {P : Option Handle → Prop} {fuel : Nat}

/-- The invariant of careful programs. `M` and `P` say what else is known. -/
def Careful (M : OverwriteMode → Prop) (P : Option Handle → Prop) (s : State) (m : Guard) : Prop :=
  M s.overwriteMode ∧ m.careful ∧ P m.created

abbrev Kept {α : Type} (sources : List U) (M : OverwriteMode → Prop) (P : Option Handle → Prop)
    (x : XferM U α) : Prop :=
  Keeps (guardStep sources) (Careful M P) x

abbrev anything {α : Type} (_ : α) : Prop := True

theorem kept_ask (allowed : ∀ created a, P created →
    Allowed sources created ⟨op, a⟩ ∧ P (createdNext created ⟨op, a⟩)): Kept sources M P (ask op) := by
  intro s m inv a
  exact ⟨inv.1, ⟨inv.2.1, (allowed _ a inv.2.2).1⟩, (allowed _ a inv.2.2).2⟩

theorem kept_setProgress {f : ProgressInfo → ProgressInfo} :
    Kept sources M P (setProgress f : XferM U Unit) := fun _ _ => id

theorem kept_progressSetSourceTargetUris {source dest : U} :
    Kept sources M P (progressSetSourceTargetUris cfg source dest) := fun _ _ => id

theorem Careful.notified {s s' : State} {n : Notice} {a : Answer} (inv : Careful M P s m)
    (mode : s'.overwriteMode = s.overwriteMode) : Careful M P s' (guardStep sources m ⟨.notify n, a⟩) :=
  ⟨mode ▸ inv.1, ⟨inv.2.1, trivial⟩, inv.2.2⟩

section Calls

variable {site : Site} {phase : Phase} {source dest : U}

theorem kept_callProgressUri : Kept sources M P (callProgressUri cfg site source dest phase) :=
  fun _ _ inv => wp_callProgressUri fun _ _ _ sent => inv.notified sent.mode

theorem kept_callProgressOften : Kept sources M P (callProgressOften cfg site phase) :=
  fun _ _ inv => wp_callProgressOften fun _ _ _ sent => inv.notified sent.mode

theorem kept_callProgressWithUrisOften :
    Kept sources M P (callProgressWithUrisOften cfg site source dest phase) :=
  fun _ _ inv => wp_callProgressWithUrisOften fun _ _ _ sent => inv.notified sent.mode

theorem kept_handleError : Kept sources M P (handleError cfg result) :=
  fun _ _ inv => wp_handleError (fun _ => inv) fun _ _ _ _ _ _ _ mode _ => inv.notified mode

end Calls

theorem kept_ask_of_quiet (allowed : ∀ created a, Allowed sources created ⟨op, a⟩)
    (next : ∀ created a, createdNext created ⟨op, a⟩ = created) : Kept sources M P (ask op) :=
  kept_ask fun created a known => ⟨allowed created a, (next created a).symm ▸ known⟩

theorem kept_tell (asked : Kept sources M P (ask op)) : Kept sources M P (tell op) :=
  .bind asked fun _ => keeps_pure _

theorem kept_doIf {c : Prop} [Decidable c] {x : XferM U Unit} (yes : Kept sources M P x) :
    Kept sources M P (doIf c x) := .ite yes (keeps_pure _)

theorem kept_openCreated {dir : U} :
    Kept sources M P (openCreated cfg dir result skip) := by
  unfold openCreated
  refine .ite (.bind (kept_ask_of_quiet (fun _ _ => trivial) fun _ _ => rfl) fun _ => keeps_pure _) ?_
  exact .bind kept_handleError fun _ => .ite (keeps_pure _) (.ite (keeps_pure _) (keeps_pure _))

theorem kept_createDirectory (unique : cfg.options.useUniqueNames = true) {dir : U} :
    Kept sources M P (createDirectory cfg fuel dir) := by
  unfold createDirectory loop
  refine .loop (fun skip => ?_) _ _
  refine .bind (kept_ask_of_quiet (fun _ _ => trivial) fun _ _ => rfl) fun result => .ite ?_ kept_openCreated
  rw [if_pos unique]
  exact keeps_pure _

section Data

variable {target source : Handle}

/-- While the data is copied the target is the file that was created last. -/
abbrev KeptWriting {α : Type} (sources : List U) (target : Handle) (x : XferM U α) : Prop :=
  Kept sources (· = .abort) (· = some target) x

theorem kept_readBlock {blockSize : Nat} :
    KeptWriting sources target (readBlock cfg fuel source blockSize skip) := by
  unfold readBlock loop
  refine .loop (fun skip => ?_) _ _
  refine .bind (kept_ask_of_quiet (fun _ _ => trivial) fun _ _ => rfl) fun reply => .ite ?_ (keeps_pure _)
  exact .bind kept_handleError fun _ => .ite (keeps_pure _) (keeps_pure _)

theorem kept_writeBlock {buffer : Bytes} :
    KeptWriting sources target (writeBlock cfg fuel target buffer skip) := by
  unfold writeBlock loop
  refine .loop (fun v => ?_) _ _
  refine .bind (kept_ask fun created a known => ⟨known, known⟩) fun reply => .ite ?_ ?_
  · exact .bind kept_handleError fun _ => .ite (keeps_pure _) (keeps_pure _)
  · exact .ite (keeps_pure _) (keeps_pure _)

theorem kept_copyBlock {blockSize : Nat} {forgetCache : Bool} {v : DataLoop} :
    KeptWriting sources target (copyBlock cfg fuel target source blockSize forgetCache v) := by
  unfold copyBlock
  refine .bind kept_setProgress fun _ => .bind kept_readBlock fun block => .ite (keeps_pure _) ?_
  refine .bind kept_setProgress fun _ => .bind kept_writeBlock fun written => ?_
  obtain ⟨result, skip, left⟩ := written
  refine .bind (kept_doIf (.bind ?_ fun _ => ?_)) fun _ => .bind kept_setProgress fun _ => ?_
  · exact kept_tell (kept_ask_of_quiet (fun _ _ => trivial) fun _ _ => rfl)
  · exact kept_tell (kept_ask_of_quiet (fun _ _ => trivial) fun _ _ => rfl)
  · refine .bind kept_callProgressOften fun _ => .ite (keeps_pure _) (.ite (keeps_pure _) ?_)
    exact .ite (keeps_pure _) (keeps_pure _)

theorem kept_copyFileData {sourceBlockSize targetBlockSize : UInt32} :
    KeptWriting sources target (copyFileData cfg fuel target source sourceBlockSize targetBlockSize) := by
  unfold copyFileData loop
  refine .bind kept_callProgressOften fun _ => .ite (keeps_pure _) (.get fun s => ?_)
  refine .bind (.loop (fun _ => kept_copyBlock) _ _) fun _ => .bind (kept_doIf ?_) fun _ => keeps_pure _
  exact .bind kept_setProgress fun _ => .bind kept_callProgressOften fun _ => keeps_pure _

end Data

/-- The calls that only make `created` forget. -/
theorem kept_ask_of_allowed (allowed : ∀ created a, Allowed sources created ⟨op, a⟩) :
    Kept sources M anything (ask op) :=
  kept_ask fun created a _ => ⟨allowed created a, trivial⟩

theorem kept_xferOpenSource {uri : U} : Kept sources M anything (xferOpenSource cfg fuel uri) := by
  unfold xferOpenSource
  refine .bind kept_callProgressOften fun _ => .bind ?_ fun opened => .get fun s => ?_
  · refine .loop (fun skip => ?_) _ _
    refine .bind (kept_ask_of_allowed fun _ _ => trivial) fun reply => .ite ?_ (keeps_pure _)
    exact .bind kept_handleError fun _ => .ite (keeps_pure _) (keeps_pure _)
  · obtain ⟨result, skip, handle⟩ := opened
    cases handle with
    | none => exact keeps_pure _
    | some h =>
      refine .ite (.bind (kept_ask_of_allowed fun _ _ => trivial) fun reply => ?_) (keeps_pure _)
      exact .bind (kept_doIf kept_setProgress) fun _ => keeps_pure _

/-- The overwrite handler in the mode `ABORT`. -/
theorem wp_handleOverwrite_abort {H : Stop → Guard → Prop} {Q : Overwritten → State → Guard → Prop}
    (abort : s.overwriteMode = .abort) (holds : Q ⟨false, .fileExists, false, false⟩ s m) :
    wp (guardStep sources) (handleOverwrite cfg result) s Q H m :=
  wp_handleOverwrite (fun _ _ only => only abort ▸ holds) fun query => nomatch abort.symm.trans query

/-- The target is created exclusively, and behind success it is the file created last. -/
theorem wp_xferCreateTarget {uri : U} (inv : Careful (· = .abort) anything s m) :
    wp (guardStep sources) (xferCreateTarget cfg fuel uri) s
      (fun r s m => Careful (· = .abort) anything s m ∧
        (r.1 = .ok → r.2.1 = false → m.created = some r.2.2))
      (fun _ m => ∃ s, Careful (· = .abort) anything s m) m := by
  unfold xferCreateTarget loop
  simp only [Action.wp_bind, Action.wp_get]
  refine Action.wp_loop (fun v s m => v.1 = true ∧ Careful (· = .abort) anything s m) ?_
    (fun _ s _ inv => ⟨s, inv.2⟩) fuel _ ⟨by simp [inv.1], inv⟩
  rintro ⟨exclusive, skip⟩ s m ⟨rfl, inv⟩
  simp only [Action.wp_bind, wp_ask]
  rintro ⟨result, handle⟩
  have created : Careful (· = .abort) anything s (guardStep sources m ⟨.createUri uri true, (result, handle)⟩) :=
    ⟨inv.1, ⟨inv.2.1, rfl⟩, trivial⟩
  simp only [Action.wp_ite, Action.wp_bind, Action.wp_pure]
  refine ⟨fun _ => ?_, fun other => ⟨fun failed => ?_, fun _ => ?_⟩⟩
  · refine wp_handleOverwrite_abort created.1 ?_
    simpa using created
  · refine wp_handleError (fun _ => ?_) fun _ n a s' h _ _ mode handled => ?_
    · simpa [failed] using created
    · have kept : Careful (· = .abort) anything s' (guardStep sources _ ⟨.notify n, a⟩) := created.notified mode
      rcases handled with rfl | rfl | rfl | rfl <;> simpa [failed] using kept
  · simp_all [guardStep, createdNext]

/-- In the mode `ABORT` an existing link is never unlinked. -/
theorem kept_createLink {source target : U} {linkName : Bytes} {v : Bool × Bool} :
    Kept sources (· = .abort) anything (createLink cfg source target linkName v) := by
  obtain ⟨triedRemove, skip⟩ := v
  refine .bind (kept_ask_of_allowed fun _ _ => trivial) fun result => .ite ?_ (.ite ?_ ?_)
  · intro s m inv
    have abort : s.overwriteMode = .abort := inv.1
    simp only [Action.wp_bind, Action.wp_get, abort, reduceCtorEq, decide_false, Bool.false_and,
      Bool.false_eq_true, if_false]
    refine wp_handleOverwrite_abort abort ?_
    exact inv
  · exact .bind kept_handleError fun _ => .ite (keeps_pure _) (keeps_pure _)
  · exact .bind kept_callProgressWithUrisOften fun _ => .ite (keeps_pure _) (keeps_pure _)

theorem kept_copySymlink {source target : U} {linkName : Bytes} :
    Kept sources (· = .abort) anything (copySymlink cfg fuel source target linkName) :=
  .bind (.loop (fun _ => kept_createLink) _ _) fun _ => keeps_pure _

theorem kept_setAttributes {target : U} :
    Kept sources M anything (setAttributes cfg target info) :=
  .bind (kept_doIf (kept_tell (kept_ask_of_allowed fun _ _ => trivial))) fun _ =>
    kept_tell (kept_ask_of_allowed fun _ _ => trivial)

theorem kept_closeFiles {target : U} :
    Kept sources M anything (closeFiles cfg info target sourceHandle targetHandle result skip) := by
  unfold closeFiles
  refine .bind (kept_ask_of_allowed fun _ _ => trivial) fun _ => .ite ?_ ?_
  · exact .bind kept_handleError fun _ => keeps_pure _
  · refine .bind (kept_ask_of_allowed fun _ _ => trivial) fun _ => .ite ?_ ?_
    · exact .bind kept_handleError fun _ => keeps_pure _
    · exact .bind (kept_doIf kept_setAttributes) fun _ => keeps_pure _

/-- What is known of the created file may be forgotten. -/
theorem Careful.forget (inv : Careful M P s m) : Careful M anything s m :=
  ⟨inv.1, inv.2.1, trivial⟩

theorem kept_copyContents {source target : U} : KeptWriting sources targetHandle
      (copyContents cfg fuel info targetDirInfo source target sourceHandle targetHandle) := by
  refine .bind kept_callProgressWithUrisOften fun _ => .ite ?_ (keeps_pure _)
  cases targetDirInfo with
  | none => exact keeps_halt _
  | some dirInfo => exact kept_copyFileData

theorem kept_finishFile {target : U} :
    Kept sources M anything (finishFile cfg info target sourceHandle targetHandle result skip) :=
  .ite (.bind kept_callProgressOften fun _ => kept_closeFiles) kept_closeFiles

/-- `copy_file` behind the opening of the source: what is written goes into the new file. -/
theorem kept_copyFile {source target : U} :
    Kept sources (· = .abort) anything (copyFile cfg fuel info targetDirInfo source target) := by
  unfold copyFile
  refine .bind kept_setProgress fun _ => .bind kept_progressSetSourceTargetUris fun _ =>
    .bind kept_xferOpenSource fun opened => ?_
  obtain ⟨result, skip, handle⟩ := opened
  cases skip with
  | true => exact keeps_pure _
  | false =>
    cases handle with
    | none => exact keeps_pure _
    | some sourceHandle =>
      refine .ite (keeps_pure _) (.bind kept_setProgress fun _ => ?_)
      intro s m inv
      rw [Action.wp_bind]
      refine Action.wp_mono (wp_xferCreateTarget inv) ?_ fun _ _ => id
      rintro ⟨result, skip, targetHandle⟩ s m ⟨inv, created⟩
      have close : Kept sources (· = .abort) anything (tell (.close sourceHandle)) :=
        kept_tell (kept_ask_of_allowed fun _ _ => trivial)
      simp only [Action.wp_ite]
      refine ⟨fun _ => ?_, fun kept => ⟨fun _ => ?_, fun success => ?_⟩⟩
      · exact Keeps.bind close (fun _ => keeps_pure _) s m inv
      · exact Keeps.bind close (fun _ => keeps_pure _) s m inv
      · have known := created (not_not.mp success) (by simpa using kept)
        rw [Action.wp_bind]
        refine Action.wp_mono (kept_copyContents s m ⟨inv.1, inv.2.1, known⟩)
          (fun r s m inv => kept_finishFile s m inv.forget) fun _ _ => ?_
        exact fun inv => inv.imp fun _ inv => inv.forget

/-- The directories below are fresh, so that the same holds for everything in them. -/
theorem kept_copyChild {copyDirectory : FileInfo → U → U → Bool → XferM U (VfsResult × Bool)}
    (directory : ∀ info source target skip,
      Kept sources (· = .abort) anything (copyDirectory info source target skip))
    {source target : U}:
    Kept sources (· = .abort) anything
      (copyChild cfg copyDirectory fuel info targetDirInfo source target skip) := by
  unfold copyChild
  cases info.type with
  | regular => exact kept_copyFile
  | directory => exact directory _ _ _ _
  | symbolicLink =>
    refine .ite (.bind (kept_ask_of_allowed fun _ _ => trivial) fun _ => ?_) kept_copySymlink
    exact .ite kept_copyFile (keeps_pure _)
  | _ => exact keeps_pure _

theorem kept_closeDirectories {target : U} {targetHandle : Option Handle} :
    Kept sources M anything
      (closeDirectories cfg info targetDirInfo target sourceHandle targetHandle result skip) := by
  unfold closeDirectories
  refine .bind ?_ fun _ => .bind (kept_tell (kept_ask_of_allowed fun _ _ => trivial)) fun _ =>
    .bind (kept_doIf kept_setAttributes) fun _ => keeps_pure _
  cases targetHandle with
  | none => exact keeps_pure _
  | some h => exact kept_tell (kept_ask_of_allowed fun _ _ => trivial)

theorem kept_copyDirectory (unique : cfg.options.useUniqueNames = true) :
    ∀ (fuel : Nat) (info : FileInfo) (source target : U) (skip : Bool),
      Kept sources (· = .abort) anything (copyDirectory cfg fuel info source target skip)
  | 0, _, _, _, _ => keeps_halt _
  | fuel + 1, info, source, target, skip => by
    have close {handle : Handle} : Kept sources (· = .abort) anything (tell (.closeDirectory handle)) :=
      kept_tell (kept_ask_of_allowed fun _ _ => trivial)
    unfold copyDirectory
    refine .bind (kept_ask_of_allowed fun _ _ => trivial) fun opened => .ite (keeps_pure _) ?_
    refine .bind kept_setProgress fun _ => .bind kept_callProgressWithUrisOften fun _ => .ite (keeps_pure _) ?_
    refine .bind (kept_createDirectory unique) fun created => ?_
    obtain ⟨result, skip, targetHandle⟩ := created
    refine .ite (.bind close fun _ => keeps_pure _) (.ite (.bind close fun _ => keeps_pure _) ?_)
    refine .bind (kept_ask_of_allowed fun _ _ => trivial) fun _ => .bind kept_callProgressWithUrisOften fun _ => ?_
    refine .bind (.ite (.bind kept_setProgress fun _ => ?_) (keeps_pure _)) fun _ => kept_closeDirectories
    refine .loop (fun skip => ?_) _ _
    refine .bind (kept_ask_of_allowed fun _ _ => trivial) fun entry => .ite (keeps_pure _) (.ite (keeps_pure _) ?_)
    refine .bind kept_setProgress fun _ => .bind kept_progressSetSourceTargetUris fun _ => ?_
    refine .bind (kept_ask_of_allowed fun _ _ => trivial) fun _ => .bind ?_ fun _ => .ite (keeps_pure _) (keeps_pure _)
    exact kept_copyChild (kept_copyDirectory unique fuel)

theorem kept_copyOne (unique : cfg.options.useUniqueNames = true) {info dirInfo : FileInfo} {source target : U} :
    Kept sources (· = .abort) anything (copyOne cfg fuel info dirInfo source target result skip) := by
  unfold copyOne
  cases info.type with
  | regular => exact kept_copyFile
  | directory => exact kept_copyDirectory unique _ _ _ _ _
  | symbolicLink => exact kept_copySymlink
  | _ => exact keeps_pure _

/-- Each attempt sets the mode `ABORT` itself. -/
theorem kept_copyAttempt (unique : cfg.options.useUniqueNames = true) {mode : OverwriteMode}
    {info dirInfo : FileInfo} {source targetItem targetDir : U} {v : CopyLoop U} :
    Kept sources anything anything (copyAttempt cfg fuel mode info dirInfo source targetItem targetDir v) := by
  unfold copyAttempt
  refine .get fun s => .bind kept_setProgress fun _ => .bind kept_callProgressWithUrisOften fun _ => ?_
  intro s m inv
  simp only [Action.wp_bind, wp_setOverwriteMode, if_pos unique]
  refine Action.wp_mono (kept_copyOne unique _ _ ⟨rfl, inv.2⟩) (fun r s m inv => ?_)
    fun _ _ inv => inv.imp fun _ inv => ⟨trivial, inv.2⟩
  refine Keeps.ite (keeps_pure _) ?_ s m ⟨trivial, inv.2⟩
  refine .bind kept_setProgress fun _ => .bind kept_callProgressUri fun _ => .bind kept_setProgress fun _ => ?_
  exact .ite (keeps_pure _) (keeps_pure _)

theorem kept_copyItems (unique : cfg.options.useUniqueNames = true) {items targets : List U} {mode : OverwriteMode} :
    Kept sources anything anything (copyItems cfg fuel items targets mode) := by
  refine .each (fun item _ v => ?_) _
  refine .bind kept_setProgress fun _ => .bind (kept_ask_of_allowed fun _ _ => trivial) fun _ => ?_
  refine .bind kept_setProgress fun _ => .ite (keeps_pure _) ?_
  refine .bind (kept_ask_of_allowed fun _ _ => trivial) fun _ => .bind ?_ fun _ => .ite (keeps_pure _) (keeps_pure _)
  exact .loop (fun _ => kept_copyAttempt unique) _ _

theorem kept_moveItems (unique : cfg.options.useUniqueNames = true) {targets : List U} :
    Kept sources anything anything (moveItems cfg fuel sources targets) := by
  refine .each (fun item member v => ?_) _
  refine .bind kept_setProgress fun _ => .bind (.loop (fun w => ?_) _ _) fun _ => .ite (keeps_pure _) (keeps_pure _)
  refine .get fun s => .bind kept_setProgress fun _ => .bind kept_progressSetSourceTargetUris fun _ => ?_
  refine .bind kept_setProgress fun _ => .bind ?_ fun result => .ite ?_ ?_
  · refine kept_ask fun created a _ => ⟨⟨(List.of_mem_zip member).1, ?_⟩, trivial⟩
    simp [unique]
  · refine .bind kept_setProgress fun _ => .bind kept_callProgressUri fun _ => .bind kept_setProgress fun _ => ?_
    exact .ite (keeps_pure _) (keeps_pure _)
  · refine .bind (.ite kept_handleError (keeps_pure _)) fun h => .ite ?_ (.ite (keeps_pure _) (keeps_pure _))
    exact .bind kept_callProgressWithUrisOften fun _ => .ite (keeps_pure _) (keeps_pure _)

theorem kept_newDirectoryWithUniqueName {targetDir : U} {name : Bytes} :
    Kept sources anything anything (newDirectoryWithUniqueName cfg fuel targetDir name) := by
  refine .bind kept_setProgress fun _ => .bind (.loop (fun v => ?_) _ _) fun made => ?_
  · refine .get fun s => .bind (kept_createDirectory rfl) fun made => .ite (keeps_pure _) ?_
    refine .bind kept_setProgress fun _ => .bind kept_callProgressUri fun _ => .bind kept_setProgress fun _ => ?_
    exact .ite (keeps_pure _) (keeps_pure _)
  · obtain ⟨result, target, handle⟩ := made
    refine .bind kept_setProgress fun _ => .bind kept_callProgressUri fun _ => .bind ?_ fun _ => keeps_pure _
    cases handle with
    | none => exact keeps_pure _
    | some h => exact kept_tell (kept_ask_of_allowed fun _ _ => trivial)

end Programs

end GnomeVfs.Xfer
