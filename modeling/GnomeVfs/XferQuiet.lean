import GnomeVfs.XferCopied

/- Which calls the functions of the transfer make. Only `copy_file_data` reads and writes, and only the
two files that it is given. -/
namespace GnomeVfs.Xfer

open Interaction
open Interaction.Action (Makes Keeps keeps_pure makes_ask record_all)

variable {U : Type} {cfg : Config U} {P : XferEvent U → Prop}

theorem makes_call {op : Op U} (known : ∀ a, P ⟨op, a⟩) : Makes P (ask op) := makes_ask known

theorem makes_tell {op : Op U} (known : ∀ a, P ⟨op, a⟩) : Makes P (tell op) :=
  Keeps.bind (makes_call known) fun _ => keeps_pure _

theorem makes_doIf {c : Prop} [Decidable c] {x : XferM U Unit} (makes : Makes P x) : Makes P (doIf c x) :=
  Keeps.ite makes (keeps_pure _)

theorem makes_setProgress {f : ProgressInfo → ProgressInfo} : Makes P (setProgress f : XferM U Unit) :=
  fun _ _ => id

section Notices

variable (told : ∀ n a, P ⟨.notify n, a⟩) {site : Site} {phase : Phase}
include told

theorem makes_callProgressOften : Makes P (callProgressOften cfg site phase) :=
  fun _ _ made => wp_callProgressOften fun n a _ _ => record_all made (told n a)

theorem makes_callProgressWithUrisOften {source target : U} :
    Makes P (callProgressWithUrisOften cfg site source target phase) :=
  fun _ _ made => wp_callProgressWithUrisOften fun n a _ _ => record_all made (told n a)

theorem makes_handleError {result : VfsResult} : Makes P (handleError cfg result) :=
  fun _ _ made => wp_handleError (fun _ => made) fun _ n a _ _ _ _ _ _ => record_all made (told n a)

theorem makes_handleOverwrite {result : VfsResult} : Makes P (handleOverwrite cfg result) :=
  fun _ _ made => wp_handleOverwrite (fun _ _ _ => made) fun _ n a _ _ _ _ _ => record_all made (told n a)

/-- The handler decides whether the call is made once more. -/
theorem makes_asked {X α : Type} {result : VfsResult} {again : Handled → X} {finish : Handled → α} :
    Makes P (do
      let h ← handleError cfg result
      if h.retry then return Step.again (again h) else return .finish (finish h)) :=
  Keeps.bind (makes_handleError told) fun _ => Keeps.ite (keeps_pure _) (keeps_pure _)

end Notices

section Quiet

variable {fuel : Nat} {source target : U} {sourceHandle targetHandle : Handle} {info : FileInfo} {result : VfsResult}
  {skip : Bool}

theorem makes_removeFile : Makes Still (removeFile cfg fuel target skip) := by
  apply Keeps.bind makes_setProgress
  intro _
  apply Keeps.loop
  intro skip
  apply Keeps.bind (makes_call fun _ => trivial)
  intro result
  apply Keeps.ite
  · exact makes_asked fun _ _ => trivial
  · apply Keeps.bind makes_setProgress
    intro _
    apply Keeps.bind (makes_callProgressWithUrisOften fun _ _ => trivial)
    intro answer
    exact Keeps.ite (keeps_pure _) (keeps_pure _)

theorem makes_resolveExisting : Makes Still (resolveExisting cfg fuel target skip) := by
  apply Keeps.bind (makes_call fun _ => trivial)
  rintro ⟨infoResult, info⟩
  apply Keeps.ite (keeps_pure _)
  apply Keeps.bind (makes_handleOverwrite fun _ _ => trivial)
  intro o
  apply Keeps.ite (keeps_pure _)
  apply Keeps.ite
  · exact Keeps.bind makes_removeFile fun _ => keeps_pure _
  · exact keeps_pure _

theorem makes_openCreated : Makes Still (openCreated cfg target result skip) := by
  apply Keeps.ite
  · exact Keeps.bind (makes_call fun _ => trivial) fun _ => keeps_pure _
  · apply Keeps.bind (makes_handleError fun _ _ => trivial)
    intro h
    exact Keeps.ite (keeps_pure _) (Keeps.ite (keeps_pure _) (keeps_pure _))

theorem makes_createDirectory : Makes Still (createDirectory cfg fuel target) := by
  apply Keeps.loop
  intro skip
  apply Keeps.bind (makes_call fun _ => trivial)
  intro result
  apply Keeps.ite
  · apply Keeps.ite (keeps_pure _)
    apply Keeps.bind makes_resolveExisting
    rintro (_ | ⟨result, skip⟩)
    · exact keeps_pure _
    · exact makes_openCreated
  · exact makes_openCreated

theorem makes_xferOpenSource : Makes Still (xferOpenSource cfg fuel source) := by
  apply Keeps.bind (makes_callProgressOften fun _ _ => trivial)
  intro _
  have opens : Makes Still (openSourceLoop cfg fuel source) := by
    apply Keeps.loop
    intro skip
    apply Keeps.bind (makes_call fun _ => trivial)
    intro r
    exact Keeps.ite (makes_asked fun _ _ => trivial) (keeps_pure _)
  apply Keeps.bind opens
  rintro ⟨result, skip, handle⟩
  apply Keeps.get
  intro s
  cases handle with
  | none => exact keeps_pure _
  | some h =>
    apply Keeps.ite
    · apply Keeps.bind (makes_call fun _ => trivial)
      intro r
      exact Keeps.bind (makes_doIf makes_setProgress) fun _ => keeps_pure _
    · exact keeps_pure _

theorem makes_xferCreateTarget : Makes Still (xferCreateTarget cfg fuel target) := by
  apply Keeps.get
  intro s
  apply Keeps.loop
  rintro ⟨exclusive, skip⟩
  apply Keeps.bind (makes_call fun _ => trivial)
  rintro ⟨result, handle⟩
  apply Keeps.ite
  · apply Keeps.bind (makes_handleOverwrite fun _ _ => trivial)
    intro o
    exact Keeps.ite (keeps_pure _) (keeps_pure _)
  · exact Keeps.ite (makes_asked fun _ _ => trivial) (keeps_pure _)

theorem makes_copySymlink {linkName : Bytes} : Makes Still (copySymlink cfg fuel source target linkName) := by
  refine Keeps.bind (Keeps.loop ?_ _ _) fun _ => keeps_pure _
  rintro ⟨triedRemove, skip⟩
  apply Keeps.bind (makes_call fun _ => trivial)
  intro result
  apply Keeps.ite
  · apply Keeps.get
    intro s
    apply Keeps.ite
    · exact Keeps.bind (makes_tell fun _ => trivial) fun _ => keeps_pure _
    · apply Keeps.bind (makes_handleOverwrite fun _ _ => trivial)
      intro o
      apply Keeps.bind (makes_doIf (makes_tell fun _ => trivial))
      intro _
      exact Keeps.ite (keeps_pure _) (keeps_pure _)
  · apply Keeps.ite
    · exact makes_asked fun _ _ => trivial
    · apply Keeps.bind (makes_callProgressWithUrisOften fun _ _ => trivial)
      intro answer
      exact Keeps.ite (keeps_pure _) (keeps_pure _)

theorem makes_setAttributes : Makes Still (setAttributes cfg target info) :=
  Keeps.bind (makes_doIf (makes_tell fun _ => trivial)) fun _ => makes_tell fun _ => trivial

theorem makes_closeFiles : Makes Still (closeFiles cfg info target sourceHandle targetHandle result skip) := by
  have asked : ∀ result, Makes Still (do
      let h ← handleError cfg result
      return (h.result, h.skip)) :=
    fun result => Keeps.bind (makes_handleError fun _ _ => trivial) fun _ => keeps_pure _
  apply Keeps.bind (makes_call fun _ => trivial)
  intro closed
  apply Keeps.ite (asked _)
  apply Keeps.bind (makes_call fun _ => trivial)
  intro closed
  apply Keeps.ite (asked _)
  exact Keeps.bind (makes_doIf makes_setAttributes) fun _ => keeps_pure _

theorem makes_finishFile : Makes Still (finishFile cfg info target sourceHandle targetHandle result skip) := by
  apply Keeps.ite
  · exact Keeps.bind (makes_callProgressOften fun _ _ => trivial) fun _ => makes_closeFiles
  · exact makes_closeFiles

theorem makes_closeDirectories {targetDirInfo : Option FileInfo} {handle : Option Handle} :
    Makes Still (closeDirectories cfg info targetDirInfo target sourceHandle handle result skip) := by
  have closes : Makes Still (closeIfOpen handle : XferM U Unit) := by
    cases handle with
    | none => exact keeps_pure _
    | some h => exact makes_tell fun _ => trivial
  apply Keeps.bind closes
  intro _
  apply Keeps.bind (makes_tell fun _ => trivial)
  intro _
  exact Keeps.bind (makes_doIf makes_setAttributes) fun _ => keeps_pure _

theorem makes_copyBlock {blockSize : Nat} {forgetCache : Bool} {v : DataLoop} :
    Makes (Carries sourceHandle targetHandle) (copyBlock cfg fuel targetHandle sourceHandle blockSize forgetCache v) := by
  have reads : Makes (Carries sourceHandle targetHandle) (readBlock cfg fuel sourceHandle blockSize v.skip) := by
    apply Keeps.loop
    intro skip
    apply Keeps.bind (makes_call fun _ => rfl)
    intro r
    exact Keeps.ite (makes_asked fun _ _ => trivial) (keeps_pure _)
  have writes : ∀ buffer skip,
      Makes (Carries sourceHandle targetHandle) (writeBlock cfg fuel targetHandle buffer skip) := by
    intro buffer skip
    apply Keeps.loop
    rintro ⟨left, skip⟩
    apply Keeps.bind (makes_call fun _ => rfl)
    rintro ⟨result, written⟩
    apply Keeps.ite
    · apply Keeps.bind (makes_handleError fun _ _ => trivial)
      intro h
      exact Keeps.ite (keeps_pure _) (keeps_pure _)
    · exact Keeps.ite (keeps_pure _) (keeps_pure _)
  apply Keeps.bind makes_setProgress
  intro _
  apply Keeps.bind reads
  rintro ⟨result, skip, data⟩
  apply Keeps.ite (keeps_pure _)
  apply Keeps.bind makes_setProgress
  intro _
  apply Keeps.bind (writes data skip)
  rintro ⟨result, skip, left⟩
  apply Keeps.bind (makes_doIf (Keeps.bind (makes_tell fun _ => trivial) fun _ => makes_tell fun _ => trivial))
  intro _
  apply Keeps.bind makes_setProgress
  intro _
  apply Keeps.bind (makes_callProgressOften fun _ _ => trivial)
  intro answer
  exact Keeps.ite (keeps_pure _) (Keeps.ite (keeps_pure _) (Keeps.ite (keeps_pure _) (keeps_pure _)))

/-- The last part of `copy_file_data`. -/
theorem makes_dataEnd {c : Prop} [Decidable c] {f : ProgressInfo → ProgressInfo} {phase : Phase} :
    Makes Still (doIf c do
      setProgress f
      let _ ← callProgressOften cfg .dataEnd phase
      return ()) := by
  apply makes_doIf
  apply Keeps.bind makes_setProgress
  intro _
  exact Keeps.bind (makes_callProgressOften fun _ _ => trivial) fun _ => keeps_pure _

end Quiet

end GnomeVfs.Xfer
