import GnomeVfs.XferWatch

/- What becomes of a cancelling answer while items are copied. -/
namespace GnomeVfs.Xfer

open Interaction

variable {U : Type}

variable {handle sourceHandle targetHandle : Handle} {skip : Bool} {info : FileInfo} {result : VfsResult}
  {targetDirInfo : Option FileInfo}

section Files

variable {cfg : Config U} {fuel : Nat} {source target : U} {α : Type}

theorem watched_rounds {X : Type} {body : X → XferM U (Step X α)} {C : α → Prop}
    (round : ∀ x, Watched cfg (body x) always (fun r => ∃ a, r = .finish a ∧ C a)) (x : X) :
    Watched cfg (loop body fuel x) always C := by
  apply Watched.loop always _ fuel x trivial
  intro x _
  apply (round x).mono
  · rintro (y | a) _ <;> trivial
  · exact fun _ => id

theorem watched_readBlock {blockSize : Nat} :
    Watched cfg (readBlock cfg fuel handle blockSize skip) always never := by
  apply watched_rounds
  intro skip
  apply Watched.seq (watched_ask fun _ => rfl)
  rintro ⟨result, data⟩ _
  apply Watched.ite
  · intro _
    apply Watched.seq watched_handleError
    intro h _
    exact .ite (fun _ => watched_pure trivial) fun _ => watched_pure trivial
  · exact fun _ => watched_pure trivial

theorem watched_writeBlock {buffer : Bytes} :
    Watched cfg (writeBlock cfg fuel handle buffer skip) always never := by
  apply watched_rounds
  rintro ⟨buffer, skip⟩
  apply Watched.seq (watched_ask fun _ => rfl)
  rintro ⟨result, written⟩ _
  apply Watched.ite
  · intro _
    apply Watched.seq watched_handleError
    intro h _
    exact .ite (fun _ => watched_pure trivial) fun _ => watched_pure trivial
  · intro _
    exact .ite (fun _ => watched_pure trivial) fun _ => watched_pure trivial

theorem watched_copyBlock {blockSize : Nat} {forgetCache : Bool} {v : DataLoop} :
    Watched cfg (copyBlock cfg fuel targetHandle sourceHandle blockSize forgetCache v) always
      (fun r => ∃ a, r = .finish a ∧ a = (.interrupted, false)) := by
  apply Watched.seq watched_setProgress
  intro _ _
  apply Watched.seq watched_readBlock
  rintro ⟨result, skip, data⟩ _
  apply Watched.ite
  · exact fun _ => watched_pure trivial
  · intro _
    apply Watched.seq watched_setProgress
    intro _ _
    apply Watched.seq watched_writeBlock
    rintro ⟨result, skip, left⟩ _
    apply Watched.seq (watched_doIf (.seq (watched_tell fun _ => rfl) fun _ _ => watched_tell fun _ => rfl))
    intro _ _
    apply Watched.seq watched_setProgress
    intro _ _
    apply Watched.bind watched_callProgressOften
    · intro answer _
      apply Watched.ite
      · exact fun _ => watched_pure trivial
      · intro _
        apply Watched.ite
        · exact fun _ => watched_pure trivial
        · intro _
          exact .ite (fun _ => watched_pure trivial) fun _ => watched_pure trivial
    · rintro answer ⟨rfl, heed⟩
      have kept : skip = false := by simpa [heeds] using heed
      subst kept
      exact settles_pure ⟨_, rfl, rfl⟩

theorem watched_copyFileData {sourceSize targetSize : UInt32} :
    Watched cfg (copyFileData cfg fuel targetHandle sourceHandle sourceSize targetSize) always
      (fun r => r = (.interrupted, false)) := by
  apply Watched.bind watched_callProgressOften
  · intro answer _
    apply Watched.ite
    · exact fun _ => watched_pure trivial
    · intro _
      apply Watched.get
      intro s
      apply Watched.bind (watched_rounds (fun _ => watched_copyBlock) _)
      · rintro ⟨result, skip⟩ _
        apply Watched.seq
        · apply watched_doIf
          apply Watched.seq watched_setProgress
          intro _ _
          exact .seq (watched_unheeded rfl) fun _ _ => watched_pure trivial
        · exact fun _ _ => watched_pure trivial
      · rintro _ rfl
        exact settles_pure rfl
  · rintro answer ⟨rfl, _⟩
    exact settles_pure rfl

theorem watched_openSourceLoop : Watched cfg (openSourceLoop cfg fuel source) always never := by
  apply watched_rounds
  intro skip
  apply Watched.seq (watched_ask fun _ => rfl)
  rintro ⟨result, handle⟩ _
  apply Watched.ite
  · intro _
    apply Watched.seq watched_handleError
    intro h _
    exact .ite (fun _ => watched_pure trivial) fun _ => watched_pure trivial
  · exact fun _ => watched_pure trivial

theorem watched_xferOpenSource : Watched cfg (xferOpenSource cfg fuel source) always never := by
  apply Watched.seq (watched_unheeded rfl)
  intro _ _
  apply Watched.seq watched_openSourceLoop
  rintro ⟨result, skip, handle⟩ _
  apply Watched.get
  intro s
  cases handle with
  | none => exact watched_pure trivial
  | some h =>
    apply Watched.ite
    · intro _
      apply Watched.seq (watched_ask fun _ => rfl)
      rintro ⟨result, info⟩ _
      exact .seq (watched_doIf watched_setProgress) fun _ _ => watched_pure trivial
    · exact fun _ => watched_pure trivial

theorem watched_xferCreateTarget : Watched cfg (xferCreateTarget cfg fuel target) always never := by
  apply Watched.get
  intro s
  apply watched_rounds
  rintro ⟨exclusive, skip⟩
  apply Watched.seq (watched_ask fun _ => rfl)
  rintro ⟨result, handle⟩ _
  apply Watched.ite
  · intro _
    apply Watched.seq watched_handleOverwrite
    intro o _
    exact .ite (fun _ => watched_pure trivial) fun _ => watched_pure trivial
  · intro _
    apply Watched.ite
    · intro _
      apply Watched.seq watched_handleError
      intro h _
      exact .ite (fun _ => watched_pure trivial) fun _ => watched_pure trivial
    · exact fun _ => watched_pure trivial

theorem watched_setAttributes : Watched cfg (setAttributes cfg target info) always never :=
  .seq (watched_doIf (watched_tell fun _ => rfl)) fun _ _ => watched_tell fun _ => rfl

theorem Handled.Of.retry_skip {h : Handled} (handled : h.Of result) (retry : h.retry = true) : h.skip = false := by
  rcases handled with rfl | rfl | rfl | rfl <;> simp_all

theorem Overwritten.Of.retry_skip {o : Overwritten} (handled : o.Of result) (retry : o.retry = true) :
    o.skip = false := by
  rcases handled with rfl | rfl | rfl | rfl <;> simp_all

/-- The loop goes round only with `skip` still `FALSE`. -/
theorem watched_createLink {linkName : Bytes} {triedRemove : Bool} :
    Watched cfg (createLink cfg source target linkName (triedRemove, false)) (Rounded (fun x => x.2 = false) always)
      (fun r => ∃ a, r = .finish a ∧ a = (.interrupted, false)) := by
  apply Watched.seq (watched_ask fun _ => rfl)
  intro result _
  apply Watched.ite
  · intro _
    apply Watched.get
    intro s
    apply Watched.ite
    · intro _
      exact .seq (watched_tell fun _ => rfl) fun _ _ => watched_pure trivial
    · intro _
      apply Watched.seq watched_handleOverwrite
      intro o handled
      apply Watched.seq (watched_doIf (watched_tell fun _ => rfl))
      intro _ _
      exact .ite (fun retry => watched_pure (handled.retry_skip retry)) fun _ => watched_pure trivial
  · intro _
    apply Watched.ite
    · intro _
      apply Watched.seq watched_handleError
      intro h handled
      exact .ite (fun retry => watched_pure (handled.retry_skip retry)) fun _ => watched_pure trivial
    · intro _
      apply Watched.bind watched_callProgressWithUrisOften
      · intro answer _
        exact .ite (fun _ => watched_pure trivial) fun _ => watched_pure trivial
      · rintro answer ⟨rfl, _⟩
        exact settles_pure ⟨_, rfl, rfl⟩

theorem watched_copySymlink {linkName : Bytes} :
    Watched cfg (copySymlink cfg fuel source target linkName) always (fun r => r = (.interrupted, false)) := by
  apply Watched.bind
  · apply Watched.loop (fun x => x.2 = false) _ fuel (false, false) rfl
    · exact always
    · exact fun r => r = (.interrupted, false)
    · rintro ⟨triedRemove, skip⟩ rfl
      exact watched_createLink
  · exact fun _ _ => watched_pure trivial
  · rintro _ rfl
    exact settles_pure rfl

theorem settles_closeFiles :
    Settles cfg (closeFiles cfg info target sourceHandle targetHandle .interrupted false)
      (fun r => r = (.interrupted, false)) := by
  apply Settles.bind (settles_ask fun _ => rfl)
  intro _ _
  apply Settles.bind (settles_ask fun _ => rfl)
  intro _ _
  exact settles_pure rfl

theorem watched_closeFiles :
    Watched cfg (closeFiles cfg info target sourceHandle targetHandle result skip) always never := by
  apply Watched.seq (watched_ask fun _ => rfl)
  intro closed _
  apply Watched.ite
  · intro _
    exact .seq watched_handleError fun _ _ => watched_pure trivial
  · intro _
    apply Watched.seq (watched_ask fun _ => rfl)
    intro closed _
    apply Watched.ite
    · intro _
      exact .seq watched_handleError fun _ _ => watched_pure trivial
    · intro _
      exact .seq (watched_doIf watched_setAttributes) fun _ _ => watched_pure trivial

theorem watched_copyContents :
    Watched cfg (copyContents cfg fuel info targetDirInfo source target sourceHandle targetHandle) always
      (fun r => r = (.interrupted, false)) := by
  apply Watched.bind watched_callProgressWithUrisOften
  · intro answer _
    apply Watched.ite
    · intro _
      cases targetDirInfo with
      | none => exact watched_halt
      | some dirInfo => exact watched_copyFileData
    · exact fun _ => watched_pure trivial
  · rintro answer ⟨_, heed⟩
    simp [heeds] at heed

theorem watched_finishFile :
    Watched cfg (finishFile cfg info target sourceHandle targetHandle result skip) always
      (fun r => r = (.interrupted, false)) := by
  apply Watched.ite
  · intro _
    apply Watched.bind watched_callProgressOften
    · intro answer _
      exact watched_closeFiles.mono (fun _ => id) fun _ => False.elim
    · rintro answer ⟨rfl, heed⟩
      have kept : skip = false := by simpa [heeds] using heed
      subst kept
      exact settles_closeFiles
  · intro _
    exact watched_closeFiles.mono (fun _ => id) fun _ => False.elim

theorem watched_copyFile :
    Watched cfg (copyFile cfg fuel info targetDirInfo source target) always
      (fun r => r = (.interrupted, false)) := by
  apply Watched.seq watched_setProgress
  intro _ _
  apply Watched.seq watched_progressSetSourceTargetUris
  intro _ _
  apply Watched.seq watched_xferOpenSource
  rintro ⟨result, skip, handle⟩ _
  cases skip with
  | true => exact watched_pure trivial
  | false =>
    cases handle with
    | none => exact watched_pure trivial
    | some sourceHandle =>
      apply Watched.ite
      · exact fun _ => watched_pure trivial
      · intro _
        apply Watched.seq watched_setProgress
        intro _ _
        apply Watched.seq watched_xferCreateTarget
        rintro ⟨result, skip, targetHandle⟩ _
        apply Watched.ite
        · intro _
          exact .seq (watched_tell fun _ => rfl) fun _ _ => watched_pure trivial
        · intro _
          apply Watched.ite
          · intro _
            exact .seq (watched_tell fun _ => rfl) fun _ _ => watched_pure trivial
          · intro _
            apply Watched.bind watched_copyContents
            · exact fun _ _ => watched_finishFile
            · rintro _ rfl
              exact settles_closeFiles

end Files

section Directories

variable {cfg : Config U} {fuel : Nat} {source target : U}

/-- A file in the way is removed with `skip` `FALSE`. -/
theorem watched_removeFile :
    Watched cfg (removeFile cfg fuel target false) always
      (fun r => r = (.interrupted, false) ∧ cfg.errorMode = .abort) := by
  apply Watched.seq watched_setProgress
  intro _ _
  apply Watched.loop (fun skip => skip = false) _ fuel false rfl
  rintro skip rfl
  apply Watched.seq (watched_ask fun _ => rfl)
  intro result _
  apply Watched.ite
  · intro _
    apply Watched.seq watched_handleError
    intro h handled
    exact .ite (fun retry => watched_pure (handled.retry_skip retry)) fun _ => watched_pure trivial
  · intro _
    apply Watched.seq watched_setProgress
    intro _ _
    apply Watched.bind watched_callProgressWithUrisOften
    · intro answer _
      exact .ite (fun _ => watched_pure trivial) fun _ => watched_pure trivial
    · rintro answer ⟨rfl, heed⟩
      have abort : cfg.errorMode = .abort := by simpa [heeds] using heed
      exact settles_pure ⟨_, rfl, rfl, abort⟩

theorem watched_resolveExisting :
    Watched cfg (resolveExisting cfg fuel target skip) always
      (fun r => r = some (.interrupted, false) ∧ cfg.errorMode = .abort) := by
  apply Watched.seq (watched_ask fun _ => rfl)
  rintro ⟨infoResult, info⟩ _
  apply Watched.ite
  · exact fun _ => watched_pure trivial
  · intro _
    apply Watched.seq watched_handleOverwrite
    intro o _
    apply Watched.ite
    · exact fun _ => watched_pure trivial
    · intro kept
      have kept : o.skip = false := by simpa using kept
      apply Watched.ite
      · intro _
        rw [kept]
        apply Watched.bind watched_removeFile
        · exact fun _ _ => watched_pure trivial
        · rintro _ ⟨rfl, abort⟩
          exact settles_pure ⟨rfl, abort⟩
      · exact fun _ => watched_pure trivial

theorem watched_openCreated :
    Watched cfg (openCreated cfg target result skip) always never := by
  apply Watched.ite
  · intro _
    exact .seq (watched_ask fun _ => rfl) fun _ _ => watched_pure trivial
  · intro _
    apply Watched.seq watched_handleError
    intro h _
    apply Watched.ite
    · exact fun _ => watched_pure trivial
    · exact fun _ => .ite (fun _ => watched_pure trivial) fun _ => watched_pure trivial

/-- The error handler is not asked here, for the mode is `ABORT`. -/
theorem settles_openCreated (abort : cfg.errorMode = .abort) :
    Settles cfg (openCreated cfg target .interrupted false)
      (fun r => ∃ a, r = .finish a ∧ a = (.interrupted, false, none)) := by
  intro s
  simp [openCreated, handleError, abort]

theorem watched_createDirectory :
    Watched cfg (createDirectory cfg fuel target) always (fun r => r = (.interrupted, false, none)) := by
  apply watched_rounds
  intro skip
  apply Watched.seq (watched_ask fun _ => rfl)
  intro result _
  have opened : ∀ result skip, Watched cfg (openCreated cfg target result skip) always
      (fun r => ∃ a, r = .finish a ∧ a = (.interrupted, false, none)) :=
    fun _ _ => watched_openCreated.mono (fun _ => id) fun _ => False.elim
  apply Watched.ite
  · intro _
    apply Watched.ite
    · exact fun _ => watched_pure trivial
    · intro _
      apply Watched.bind watched_resolveExisting
      · rintro (_ | ⟨result, skip⟩) _
        · exact watched_pure trivial
        · exact opened result skip
      · rintro _ ⟨rfl, abort⟩
        exact settles_openCreated abort
  · exact fun _ => opened result skip

theorem isFinal_interrupted : isFinal cfg .interrupted = true := by simp [isFinal]

theorem isFinal_ne_ok (final : isFinal cfg result = true) : result ≠ .ok := by
  simp only [isFinal, Bool.and_eq_true, decide_eq_true_eq] at final
  exact final.1.1

theorem isFinal_eofToOk (final : isFinal cfg result = true) : eofToOk result = result := by
  simp only [isFinal, Bool.and_eq_true, decide_eq_true_eq] at final
  exact if_neg final.1.2

/-- What a function leaves that copies a whole object. -/
def Final (cfg : Config U) (r : VfsResult × Bool) : Prop := isFinal cfg r.1 = true

theorem final_of_interrupted {r : VfsResult × Bool} (interrupted : r = (.interrupted, false)) : Final cfg r := by
  subst interrupted
  exact isFinal_interrupted

theorem watched_copyChild {copyDirectory : FileInfo → U → U → Bool → XferM U (VfsResult × Bool)}
    (nested : ∀ info source target skip, Watched cfg (copyDirectory info source target skip) always (Final cfg))
    {skipChild : Bool} :
    Watched cfg (copyChild cfg copyDirectory fuel info targetDirInfo source target skipChild) always
      (Final cfg) := by
  have file : ∀ info, Watched cfg (copyFile cfg fuel info targetDirInfo source target) always (Final cfg) :=
    fun _ => watched_copyFile.mono (fun _ => id) fun _ => final_of_interrupted
  unfold copyChild
  cases info.type with
  | regular => exact file info
  | directory => exact nested info source target skipChild
  | symbolicLink =>
    apply Watched.ite
    · intro _
      apply Watched.seq (watched_ask fun _ => rfl)
      rintro ⟨result, linkInfo⟩ _
      exact .ite (fun _ => file linkInfo) fun _ => watched_pure trivial
    · intro _
      exact watched_copySymlink.mono (fun _ => id) fun _ => final_of_interrupted
  | _ => exact watched_pure trivial

theorem watched_copyEntry {copyDirectory : FileInfo → U → U → Bool → XferM U (VfsResult × Bool)}
    (nested : ∀ info source target skip, Watched cfg (copyDirectory info source target skip) always (Final cfg)) :
    Watched cfg (copyEntry cfg copyDirectory fuel targetDirInfo source target handle skip) always
      (fun r => ∃ a, r = .finish a ∧ Final cfg a) := by
  apply Watched.seq (watched_ask fun _ => rfl)
  rintro ⟨result, info⟩ _
  apply Watched.ite
  · exact fun _ => watched_pure trivial
  · intro _
    apply Watched.ite
    · exact fun _ => watched_pure trivial
    · intro _
      apply Watched.seq watched_setProgress
      intro _ _
      apply Watched.seq watched_progressSetSourceTargetUris
      intro _ _
      apply Watched.seq (watched_ask fun _ => rfl)
      intro garbage _
      apply Watched.bind (watched_copyChild nested)
      · rintro ⟨result, skipChild⟩ _
        exact .ite (fun _ => watched_pure trivial) fun _ => watched_pure trivial
      · rintro ⟨result, skipChild⟩ final
        have failed : result ≠ .ok := isFinal_ne_ok final
        simp only [failed, if_false]
        exact settles_pure ⟨_, rfl, final⟩

theorem watched_closeDirectories {targetHandle : Option Handle} :
    Watched cfg (closeDirectories cfg info targetDirInfo target sourceHandle targetHandle result skip) always
      never := by
  have closed : Watched cfg (closeIfOpen targetHandle) always never := by
    cases targetHandle with
    | none => exact watched_pure trivial
    | some h => exact watched_tell fun _ => rfl
  apply Watched.seq closed
  intro _ _
  apply Watched.seq (watched_tell fun _ => rfl)
  intro _ _
  exact .seq (watched_doIf watched_setAttributes) fun _ _ => watched_pure trivial

theorem settles_closeDirectories {targetHandle : Option Handle} (final : isFinal cfg result = true) :
    Settles cfg (closeDirectories cfg info targetDirInfo target sourceHandle targetHandle (eofToOk result) skip)
      (Final cfg) := by
  have closed : Settles cfg (closeIfOpen targetHandle) always := by
    cases targetHandle with
    | none => exact settles_pure trivial
    | some h => exact settles_tell fun _ => rfl
  rw [isFinal_eofToOk final]
  apply Settles.bind closed
  intro _ _
  apply Settles.bind (settles_tell fun _ => rfl)
  intro _ _
  simp only [doIf, isFinal_ne_ok final, if_false]
  exact settles_pure final

/-- The induction is on the fuel, which bounds the depth of the tree. -/
theorem watched_copyDirectory (fuel : Nat) : ∀ (info : FileInfo) (source target : U) (skip : Bool),
    Watched cfg (copyDirectory cfg fuel info source target skip) always (Final cfg) := by
  induction fuel with
  | zero => exact fun _ _ _ _ => watched_halt
  | succ fuel nested =>
    intro info source target skip
    apply Watched.seq (watched_ask fun _ => rfl)
    rintro ⟨result, sourceHandle⟩ _
    apply Watched.ite
    · exact fun _ => watched_pure trivial
    · intro _
      apply Watched.seq watched_setProgress
      intro _ _
      apply Watched.bind watched_callProgressWithUrisOften
      · intro answer _
        apply Watched.ite
        · exact fun _ => watched_pure trivial
        · intro _
          apply Watched.bind watched_createDirectory
          · rintro ⟨result, skip, targetHandle⟩ _
            apply Watched.ite
            · intro _
              exact .seq (watched_tell fun _ => rfl) fun _ _ => watched_pure trivial
            · intro _
              apply Watched.ite
              · intro _
                exact .seq (watched_tell fun _ => rfl) fun _ _ => watched_pure trivial
              · intro _
                apply Watched.seq (watched_ask fun _ => rfl)
                rintro ⟨infoResult, dirInfo⟩ _
                apply Watched.bind watched_callProgressWithUrisOften
                · intro answer _
                  apply Watched.bind (D := Final cfg)
                  · apply Watched.ite
                    · intro _
                      apply Watched.seq watched_setProgress
                      intro _ _
                      exact watched_rounds (fun _ => watched_copyEntry nested) false
                    · exact fun _ => watched_pure trivial
                  · exact fun _ _ => watched_closeDirectories.mono (fun _ => id) fun _ => False.elim
                  · exact fun _ final => settles_closeDirectories final
                · rintro answer ⟨rfl, heed⟩
                  exact settles_closeDirectories heed
          · rintro _ rfl
            apply Settles.bind (settles_tell fun _ => rfl)
            intro _ _
            exact settles_pure isFinal_interrupted
      · rintro answer ⟨rfl, _⟩
        exact settles_pure isFinal_interrupted

end Directories

variable {dirInfo : FileInfo}

section Items

variable {cfg : Config U} {fuel : Nat} {source target : U} {mode : OverwriteMode}

theorem watched_copyOne :
    Watched cfg (copyOne cfg fuel info dirInfo source target result skip) always (Final cfg) := by
  unfold copyOne
  cases info.type with
  | regular => exact watched_copyFile.mono (fun _ => id) fun _ => final_of_interrupted
  | directory => exact watched_copyDirectory fuel info source target skip
  | symbolicLink => exact watched_copySymlink.mono (fun _ => id) fun _ => final_of_interrupted
  | _ => exact watched_pure trivial

/-- The answer to the notification about a whole item is kept only where nothing is copied. -/
theorem settles_copyOne (heed : heeds cfg (.copyItem info.type) = true) :
    Settles cfg (copyOne cfg fuel info dirInfo source target result skip) (fun r => r = (result, skip)) := by
  unfold copyOne
  cases type : info.type with
  | regular => simp [heeds, type] at heed
  | directory => simp [heeds, type] at heed
  | symbolicLink => simp [heeds, type] at heed
  | _ => exact settles_pure rfl

theorem watched_setOverwriteMode : Watched cfg (setOverwriteMode mode : XferM U Unit) always never :=
  fun _ => Or.inr (Or.inl ⟨rfl, trivial⟩)

theorem settles_setOverwriteMode : Settles cfg (setOverwriteMode mode : XferM U Unit) always :=
  fun _ => ⟨rfl, trivial⟩

/-- The end of a round of `copy_items` behind a cancelling answer: there is no other name to try. -/
theorem Final.ends {r : VfsResult × Bool} (final : Final cfg r) :
    (r.1 ≠ .fileExists || !cfg.options.useUniqueNames) = true := by
  cases unique : cfg.options.useUniqueNames <;> simp_all [Final, isFinal]

theorem watched_copyAttempt {targetItem targetDir : U} {v : CopyLoop U} :
    Watched cfg (copyAttempt cfg fuel mode info dirInfo source targetItem targetDir v) always
      (fun r => ∃ a, r = .finish a ∧ a.1 ≠ .ok) := by
  apply Watched.get
  intro s
  apply Watched.seq watched_setProgress
  intro _ _
  apply Watched.bind watched_callProgressWithUrisOften
  · intro answer _
    apply Watched.seq watched_setOverwriteMode
    intro _ _
    apply Watched.bind watched_copyOne
    · rintro ⟨result, skip⟩ _
      apply Watched.ite
      · exact fun _ => watched_pure trivial
      · intro _
        apply Watched.duplicate
        · exact fun _ => rfl
        · intro answer
          apply Watched.seq watched_setProgress
          intro _ _
          exact .ite (fun _ => watched_pure trivial) fun _ => watched_pure trivial
    · rintro ⟨result, skip⟩ final
      have failed : result ≠ .ok := isFinal_ne_ok final
      simp only [final.ends, if_true]
      exact settles_pure ⟨_, rfl, failed⟩
  · rintro answer ⟨rfl, heed⟩
    apply Settles.bind settles_setOverwriteMode
    intro _ _
    apply Settles.bind (settles_copyOne heed)
    rintro _ rfl
    exact settles_pure ⟨_, rfl, by simp⟩

theorem watched_copyItem {item : U × U} {copied : List U} :
    Watched cfg (copyItem cfg fuel mode item copied) always (fun r => ∃ a, r = .finish a ∧ a.1 ≠ .ok) := by
  apply Watched.seq watched_setProgress
  intro _ _
  apply Watched.seq (watched_ask fun _ => rfl)
  rintro ⟨result, info⟩ _
  apply Watched.seq watched_setProgress
  intro _ _
  apply Watched.ite
  · exact fun _ => watched_pure trivial
  · intro _
    apply Watched.seq (watched_ask fun _ => rfl)
    rintro ⟨dirResult, dirInfo⟩ _
    apply Watched.bind (watched_rounds (fun _ => watched_copyAttempt) _)
    · rintro ⟨result, copied⟩ _
      exact .ite (fun _ => watched_pure trivial) fun _ => watched_pure trivial
    · rintro ⟨result, copied⟩ failed
      simp only [ne_eq, failed, not_false_eq_true, if_true]
      exact settles_pure ⟨_, rfl, failed⟩

theorem watched_copyItems {sources targets : List U} :
    Watched cfg (copyItems cfg fuel sources targets mode) always (fun r => r.1 ≠ .ok) := by
  apply Watched.each
  rintro item ⟨_, copied⟩
  exact watched_copyItem

end Items

section Runs

variable {cfg : Config U} {fuel : Nat} {sources targets : List U} {mode : OverwriteMode} {s : State}
  {trace : Trace U} {out : Outcome Stop ((VfsResult × List U) × State)}

/-- Behind a cancelling answer nothing is touched, and the caller learns of it. -/
def StopsWhenCancelled (trace : Trace U) (out : Outcome Stop ((VfsResult × List U) × State)) :
    Prop :=
  ∀ before e after, trace = before ++ e :: after → cancels e = true →
    (∀ e' ∈ after, affects e' = false) ∧ ∃ r copied s', out = .returned ((r, copied), s') ∧ r ≠ .ok

theorem foldl_watch_broken (trace : Trace U) : trace.foldl (watch cfg) .broken = .broken := by
  induction trace with
  | nil => rfl
  | cons e trace ih => exact ih

theorem foldl_watch_cancelled (cfg : Config U) (trace : Trace U) :
    trace.foldl (watch cfg) .cancelled = .broken ∨
      (trace.foldl (watch cfg) .cancelled = .cancelled ∧ ∀ e ∈ trace, affects e = false) := by
  induction trace with
  | nil => exact Or.inr ⟨rfl, by simp⟩
  | cons e trace ih =>
    cases touched : affects e with
    | true => exact Or.inl (by simp [watch, touched, foldl_watch_broken])
    | false => simpa [watch, touched] using ih

theorem cancels_quiet {e : XferEvent U} (cancel : cancels e = true) : affects e = false := by
  obtain ⟨op, a⟩ := e
  cases op with
  | notify n => rfl
  | _ => simp [cancels] at cancel

theorem foldl_watch_heeded (trace : Trace U)
    (heeded : ∀ e ∈ trace, cancels e = true → honoured cfg e = true) :
    trace.foldl (watch cfg) .live ≠ .exempt := by
  induction trace with
  | nil => simp
  | cons e trace ih =>
    rw [List.foldl_cons]
    cases cancel : cancels e with
    | true =>
      have heed := heeded e (by simp) cancel
      simp only [watch, cancel, heed, if_true]
      rcases foldl_watch_cancelled cfg trace with broken | ⟨settled, _⟩
      · simp [broken]
      · simp [settled]
    | false =>
      simp only [watch, cancel, Bool.false_eq_true, if_false]
      exact ih fun e member => heeded e (List.mem_cons_of_mem _ member)

theorem watch_past {m : Watch} {e : XferEvent U} (unexempt : m ≠ .exempt) (cancel : cancels e = true)
    (heed : honoured cfg e = true) : watch cfg m e = .cancelled ∨ watch cfg m e = .broken := by
  cases m with
  | live => exact Or.inl (by simp [watch, cancel, heed])
  | cancelled => exact Or.inl (by simp [watch, cancels_quiet cancel])
  | exempt => exact absurd rfl unexempt
  | broken => exact Or.inr rfl

/-- Where each cancelling answer is heeded, the copy stops. -/
theorem copyItems_stops (run : Runs (copyItems cfg fuel sources targets mode s) trace out)
    (heeded : ∀ e ∈ trace, cancels e = true → honoured cfg e = true) : StopsWhenCancelled trace out := by
  rintro before e after rfl cancel
  have unexempt := foldl_watch_heeded before fun e member => heeded e (List.mem_append_left _ member)
  have seen := Prog.wp_runs (watch cfg) run (watched_copyItems s)
  rw [List.foldl_append, List.foldl_cons] at seen
  have unbroken : after.foldl (watch cfg) (watch cfg (before.foldl (watch cfg) .live) e) ≠ .broken := by
    intro broken
    rw [broken] at seen
    cases out <;> simp [Outcome.Meets] at seen
  rcases watch_past unexempt cancel (heeded e (by simp) cancel) with settled | broken
  · rw [settled] at seen unbroken
    rcases foldl_watch_cancelled cfg after with broken | ⟨state, untouched⟩
    · exact absurd broken unbroken
    · rw [state] at seen
      cases out with
      | stopped reason => simp [Outcome.Meets] at seen
      | returned r =>
        have failed : r.1.1 ≠ .ok := by simpa [Outcome.Meets] using seen
        exact ⟨untouched, _, _, _, rfl, failed⟩
  · rw [broken, foldl_watch_broken] at unbroken
    exact absurd rfl unbroken

theorem StopsWhenCancelled.untouched (stops : StopsWhenCancelled trace out) :
    ((trace.dropWhile fun e => !cancels e).drop 1).any affects = false := by
  cases rest : trace.dropWhile fun e => !cancels e with
  | nil => rfl
  | cons e after =>
    have split : trace = trace.takeWhile (fun e => !cancels e) ++ e :: after := by
      rw [← rest, List.takeWhile_append_dropWhile]
    have cancel : cancels e = true := by
      have first := List.head?_dropWhile_not (fun e => !cancels e) trace
      simpa [rest] using first
    simpa using (stops _ e after split cancel).1

end Runs

/-- The callback cancels at one place, and all else goes well. -/
def cancelAt (site : Site) : Unit → (op : Op Bytes) → op.Reply × Unit
  | _, .notify n => (⟨0, if n.site = site then 0 else 1, 1, n.info.duplicateName⟩, ())
  | _, op => (calmReply op, ())

def copyOneFile : XferM Bytes (VfsResult × List Bytes) :=
  copyItems (plainConfig {}) 4 [ascii "/a"] [ascii "/b/a"] .abort

/-- Cancelled when the data is about to be copied, the copy stops. -/
theorem copyItems_stops_dataStart : ∃ trace out,
    Runs (copyOneFile { overwriteMode := .abort }) trace out ∧ (∃ e ∈ trace, cancels e = true) ∧
      (∀ e ∈ trace, cancels e = true → honoured (plainConfig {}) e = true) ∧ StopsWhenCancelled trace out := by
  have run := Prog.exec_runs (cancelAt .dataStart) (copyOneFile { overwriteMode := .abort }) ()
  have heeded : ∀ e ∈ (Prog.exec (cancelAt .dataStart) (copyOneFile { overwriteMode := .abort }) ()).1,
      cancels e = true → honoured (plainConfig {}) e = true := by decide +kernel
  have some : ∃ e ∈ (Prog.exec (cancelAt .dataStart) (copyOneFile { overwriteMode := .abort }) ()).1,
      cancels e = true := by decide +kernel
  exact ⟨_, _, run, some, heeded, copyItems_stops run heeded⟩

/-- Cancelled when the source is about to be opened, the copy goes on and creates the target. -/
theorem copyItems_goes_on : ∃ trace out,
    Runs (copyOneFile { overwriteMode := .abort }) trace out ∧ ¬ StopsWhenCancelled trace out := by
  have run := Prog.exec_runs (cancelAt .openSource) (copyOneFile { overwriteMode := .abort }) ()
  have touched : (((Prog.exec (cancelAt .openSource) (copyOneFile { overwriteMode := .abort }) ()).1.dropWhile
      fun e => !cancels e).drop 1).any affects = true := by decide +kernel
  refine ⟨_, _, run, fun stops => ?_⟩
  rw [stops.untouched] at touched
  exact Bool.false_ne_true touched

end GnomeVfs.Xfer
