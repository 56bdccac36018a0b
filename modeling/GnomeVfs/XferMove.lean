import GnomeVfs.XferComplete

/- A move that copies and deletes: what it deletes has been copied completely, where the round that says so
has no harmful step. -/
namespace GnomeVfs.Xfer

open Interaction
open Interaction.Action (Shows shows_any shows_pure shows_halt shows_of_record shows_runs Round)

variable {U : Type} {cfg : Config U} {strict : Bool}

section Directories

variable {fuel : Nat} {source target : U}

/-- Without a question the error of the call is handed on. -/
theorem shows_removeFile {skip : Bool} (mode : cfg.errorMode = .abort) :
    Shows (Calm cfg strict) (removeFile cfg fuel target skip) (fun r _ => r.1 ≠ .eof) := by
  apply Shows.bind shows_any
  intro _ _ _
  apply Shows.loop (fun _ _ => True) _ fuel skip trivial
  intro skip acc _
  apply Shows.bind shows_call
  rintro result _ ⟨calm, rfl⟩
  have known : result ≠ .eof := by simpa [Calm, harmful, mode] using calm
  apply Shows.ite
  · intro _
    apply Shows.bind shows_handleError
    rintro h _ ⟨handled, _⟩
    apply Shows.ite
    · exact fun _ => shows_pure trivial
    · exact fun _ => shows_pure (handled.ne_eof known)
  · intro _
    apply Shows.bind shows_any
    intro _ _ _
    apply Shows.bind shows_any
    intro answer _ _
    apply Shows.ite
    · exact fun _ => shows_pure (by simp [Round])
    · exact fun _ => shows_pure (by simp [Round])

theorem shows_resolveExisting {skip : Bool} :
    Shows (Calm cfg strict) (resolveExisting cfg fuel target skip)
      (fun r _ => cfg.errorMode = .abort → ∀ x, r = some x → x.1 ≠ .eof) := by
  apply Shows.bind shows_any
  rintro ⟨infoResult, info⟩ _ _
  apply Shows.ite
  · exact fun _ => shows_pure (by simp)
  · intro _
    apply Shows.bind shows_any
    intro o _ _
    apply Shows.ite
    · exact fun _ => shows_pure (by simp)
    · intro _
      apply Shows.ite
      · intro _
        by_cases mode : cfg.errorMode = .abort
        · apply Shows.bind (shows_removeFile mode)
          exact fun r _ known => shows_pure (by simpa using fun _ => known)
        · apply Shows.bind shows_any
          exact fun _ _ _ => shows_pure fun abort => absurd abort mode
      · exact fun _ => shows_pure (by simp)

/-- The directory is made when `createDirectory` returns `OK` without a skip. -/
def Created (strict : Bool) (target : U) (r : VfsResult × Bool × Option Handle) (trace : Trace U) :
    Prop :=
  r.1 ≠ .eof ∧ (r.1 = .ok → r.2.1 = false → DirectoryMade strict target trace)

/-- What the call of `mkdir` has to say for the directory to count as made once it is open. -/
def MadeWhenOpen (strict : Bool) (target : U) (trace : Trace U) : Prop :=
  ⟨.makeDirectory target, VfsResult.ok⟩ ∈ trace ∨
    (strict = false ∧ ⟨.makeDirectory target, VfsResult.fileExists⟩ ∈ trace)

theorem shows_openCreated {result : VfsResult} {skip : Bool} {acc front : Trace U}
    (known : cfg.errorMode = .abort → result ≠ .eof)
    (made : result = .ok → MadeWhenOpen strict target (acc ++ front)) :
    Shows (Calm cfg strict) (openCreated cfg target result skip)
      (fun r back => Round (fun _ _ => True) (Created strict target) acc r (front ++ back)) := by
  apply Shows.ite
  · intro ok
    apply Shows.bind shows_call
    rintro ⟨opened, handle⟩ _ ⟨calm, rfl⟩
    have known : opened ≠ .eof := by simpa [Calm, harmful] using calm
    apply shows_pure
    refine ⟨known, fun (succeeded : opened = .ok) _ => ?_⟩
    subst succeeded
    rw [List.append_nil, ← List.append_assoc]
    rcases made ok with fresh | ⟨lenient, exists'⟩
    · exact Or.inl (List.mem_append_left _ fresh)
    · exact Or.inr ⟨lenient, List.mem_append_left _ exists', handle, by simp⟩
  · intro failed
    apply Shows.bind (shows_handleError_eof (calm_asked known))
    rintro h _ ⟨handled, _, retried⟩
    apply Shows.ite
    · exact fun _ => shows_pure ⟨by simp, by simp⟩
    · intro _
      apply Shows.ite
      · exact fun _ => shows_pure trivial
      · intro stays
        apply shows_pure
        refine ⟨retried stays, fun ok kept => ?_⟩
        simp [handled.skipped failed ok] at kept

theorem shows_createDirectory :
    Shows (Calm cfg strict) (createDirectory cfg fuel target) (Created strict target) := by
  apply Shows.loop (fun _ _ => True) _ fuel false trivial
  intro skip acc _
  apply Shows.bind shows_call
  rintro result _ ⟨calm, rfl⟩
  have known : (cfg.errorMode = .abort → result ≠ .eof) ∧ (strict = true → result ≠ .fileExists) := by
    simpa [Calm, harmful] using calm
  apply Shows.ite
  · rintro rfl
    have lenient : strict = false := by simpa using known.2
    apply Shows.ite
    · exact fun _ => shows_pure ⟨by simp, by simp⟩
    · intro _
      apply Shows.bind shows_resolveExisting
      rintro (_ | ⟨result, skip⟩) resolves resolved
      · exact shows_pure ⟨by simp, by simp⟩
      · simp only [← List.append_assoc]
        apply shows_openCreated fun mode => resolved mode _ rfl
        exact fun _ => Or.inr ⟨lenient, by simp⟩
  · intro _
    apply shows_openCreated known.1
    rintro rfl
    exact Or.inl (by simp)

/-- What is left of the steps that are not harmful: the types that can be copied. -/
theorem copyable_cases {type : FileType} (copyable : type.copyable = true) :
    type = .regular ∨ type = .directory ∨ type = .symbolicLink := by
  cases type <;> simp [FileType.copyable] at copyable ⊢

/-- `info` differs from what was read of the object in its group at most. -/
structure SameObject (info read : FileInfo) : Prop where
  type : info.type = read.type
  symlinkName : info.symlinkName = read.symlinkName

theorem sameObject_inheritGroup (read : FileInfo) (targetDirInfo : Option FileInfo) :
    SameObject (inheritGroup read targetDirInfo) read := by
  unfold inheritGroup
  cases targetDirInfo with
  | none => exact ⟨rfl, rfl⟩
  | some dirInfo =>
    dsimp only
    split
    · exact ⟨rfl, rfl⟩
    · exact ⟨rfl, rfl⟩

/-- The function copies whole directories, whatever it is told of their group. -/
def CopiesDirectories (cfg : Config U) (strict : Bool)
    (copyDirectory : FileInfo → U → U → Bool → XferM U (VfsResult × Bool)) : Prop :=
  ∀ info read source target skip, read.type = .directory →
    Shows (Calm cfg strict) (copyDirectory info source target skip) (Whole (Copied cfg strict read source target))

theorem Whole.mono {P Q : Trace U → Prop} {r : VfsResult × Bool} {trace trace' : Trace U}
    (whole : Whole P r trace) (weaker : P trace → Q trace') : Whole Q r trace' :=
  ⟨whole.1, fun complete => weaker (whole.2 complete)⟩

theorem shows_copyChild {copyDirectory : FileInfo → U → U → Bool → XferM U (VfsResult × Bool)}
    (nested : CopiesDirectories cfg strict copyDirectory) {info read : FileInfo}
    {targetDirInfo : Option FileInfo} {skipChild : Bool} (same : SameObject info read)
    (copyable : read.type.copyable = true)
    (follows : strict = true → read.type = .symbolicLink → cfg.options.followLinksRecursive = false) :
    Shows (Calm cfg strict) (copyChild cfg copyDirectory fuel info targetDirInfo source target skipChild)
      (Whole (Copied cfg strict read source target)) := by
  unfold copyChild
  rw [same.type]
  rcases copyable_cases copyable with type | type | type
  · rw [type]
    exact shows_copyFile.mono fun _ _ whole => whole.mono (.file type)
  · rw [type]
    exact nested info read source target skipChild type
  · rw [type]
    apply Shows.ite
    · intro follow
      have lenient : strict = false := by
        by_contra strict
        simp [follows (by simpa using strict) type] at follow
      apply Shows.bind shows_call
      rintro ⟨result, linkInfo⟩ _ ⟨calm, rfl⟩
      have known : result ≠ .eof := by simpa [Calm, harmful] using calm
      apply Shows.ite
      · intro _
        apply shows_copyFile.mono
        exact fun _ _ whole => whole.mono fun copied => .followed lenient follow type (copied.cons trivial)
      · exact fun failed => shows_pure (whole_failed known failed)
    · intro _
      rw [same.symlinkName]
      exact (shows_copySymlink.and_makes makes_copySymlink).mono fun _ _ whole => whole.1.mono (.link type whole.2)

/-- The entries read so far are copied, unless something was skipped. -/
def EntriesSoFar (cfg : Config U) (strict : Bool) (handle : Handle) (source target : U) (skip : Bool)
    (acc : Trace U) : Prop :=
  skip = false → ∀ rest, Entries cfg strict handle source target rest →
    Entries cfg strict handle source target (acc ++ rest)

/-- The loop ends with an error, or with all entries copied. -/
def EntriesDone (cfg : Config U) (strict : Bool) (handle : Handle) (source target : U)
    (r : VfsResult × Bool) (trace : Trace U) : Prop :=
  r.1 ≠ .ok ∧ (r.1 = .eof → r.2 = false → Entries cfg strict handle source target trace)

theorem shows_copyEntry {copyDirectory : FileInfo → U → U → Bool → XferM U (VfsResult × Bool)}
    (nested : CopiesDirectories cfg strict copyDirectory) {targetDirInfo : Option FileInfo} {handle : Handle}
    {skip : Bool} {acc : Trace U} (inv : EntriesSoFar cfg strict handle source target skip acc) :
    Shows (Calm cfg strict) (copyEntry cfg copyDirectory fuel targetDirInfo source target handle skip)
      (Round (EntriesSoFar cfg strict handle source target) (EntriesDone cfg strict handle source target) acc) := by
  apply Shows.bind shows_call
  rintro ⟨result, read⟩ _ ⟨calm, rfl⟩
  apply Shows.ite
  · intro failed
    apply shows_pure
    refine ⟨failed, fun (eof : result = .eof) unskipped => ?_⟩
    subst eof
    exact inv unskipped _ (.done read)
  · intro passed
    have ok : result = .ok := not_not.mp passed
    subst ok
    apply Shows.ite
    · intro dots
      apply shows_pure
      intro unskipped rest entries
      have whole := inv unskipped _ (.dots dots entries)
      simpa using whole
    · intro named
      have named : isDots read.name = false := by simpa using named
      have plain : read.type.copyable = true ∧
          (strict = true → read.type = .symbolicLink → cfg.options.followLinksRecursive = false) := by
        simpa [Calm, harmful, named] using calm
      apply Shows.bind shows_setProgress
      rintro _ _ rfl
      apply Shows.bind shows_progressSetSourceTargetUris
      rintro _ _ rfl
      apply Shows.bind shows_call
      rintro garbage _ ⟨_, rfl⟩
      apply Shows.bind (shows_copyChild nested (sameObject_inheritGroup read targetDirInfo) plain.1 plain.2)
      rintro ⟨result, skipChild⟩ child ⟨known, copied⟩
      apply Shows.ite
      · rintro rfl
        apply shows_pure
        intro unskipped rest entries
        obtain ⟨here, below⟩ := Bool.or_eq_false_iff.mp unskipped
        subst below
        have whole := inv here _ (.child garbage (copied rfl) entries)
        simpa using whole
      · intro failed
        apply shows_pure
        exact ⟨failed, fun eof => absurd eof known⟩

theorem shows_entries {copyDirectory : FileInfo → U → U → Bool → XferM U (VfsResult × Bool)}
    (nested : CopiesDirectories cfg strict copyDirectory) {f : ProgressInfo → ProgressInfo}
    {targetDirInfo : Option FileInfo} {handle : Handle} :
    Shows (Calm cfg strict) (do
      setProgress f
      loop (copyEntry cfg copyDirectory fuel targetDirInfo source target handle) fuel false)
      (EntriesDone cfg strict handle source target) := by
  apply Shows.bind shows_setProgress
  rintro _ _ rfl
  exact Shows.loop (EntriesSoFar cfg strict handle source target) (fun _ _ inv => shows_copyEntry nested inv)
    fuel false fun _ _ => id

theorem shows_closeDirectories {info : FileInfo} {targetDirInfo : Option FileInfo} {sourceHandle : Handle}
    {targetHandle : Option Handle} {result : VfsResult} {skip : Bool} :
    Shows (Calm cfg strict)
      (closeDirectories cfg info targetDirInfo target sourceHandle targetHandle result skip)
      (fun r trace => r = (result, skip) ∧ Quiet trace) := by
  apply Shows.and_makes _ makes_closeDirectories
  apply Shows.bind shows_any
  intro _ _ _
  apply Shows.bind shows_any
  intro _ _ _
  apply Shows.bind shows_any
  exact fun _ _ _ => shows_pure rfl

/-- The induction is on the fuel, which bounds the depth of the tree. -/
theorem copiesDirectories_copyDirectory (fuel : Nat) :
    CopiesDirectories cfg strict (copyDirectory cfg fuel) := by
  induction fuel with
  | zero => exact fun _ _ _ _ _ _ => shows_halt
  | succ fuel nested =>
    intro info read source target skip type
    apply Shows.bind shows_call
    rintro ⟨result, sourceHandle⟩ _ ⟨calm, rfl⟩
    have known : result ≠ .eof := by simpa [Calm, harmful] using calm
    apply Shows.ite
    · exact fun failed => shows_pure (whole_failed known failed)
    · intro passed
      have ok : result = .ok := not_not.mp passed
      subst ok
      apply Shows.bind shows_setProgress
      rintro _ _ rfl
      apply Shows.bind shows_callProgressWithUrisOften
      rintro answer _ ⟨⟨first, a₁, _, rfl, rfl⟩, _⟩
      apply Shows.ite
      · exact fun _ => shows_pure (whole_failed (by simp) (by simp))
      · intro _
        apply Shows.bind (shows_createDirectory.and_makes makes_createDirectory)
        rintro ⟨result, skip, targetHandle⟩ creates ⟨⟨known, created⟩, quiet⟩
        apply Shows.ite
        · intro _
          apply Shows.bind shows_any
          exact fun _ _ _ => shows_pure whole_skipped
        · intro unskipped
          apply Shows.ite
          · intro failed
            apply Shows.bind shows_any
            exact fun _ _ _ => shows_pure (whole_failed known failed)
          · intro passed
            have made := created (not_not.mp passed) (by simpa using unskipped)
            apply Shows.bind shows_call
            rintro ⟨infoResult, dirInfo⟩ _ ⟨_, rfl⟩
            apply Shows.bind shows_callProgressWithUrisOften
            rintro answer _ ⟨⟨n, a, site, rfl, rfl⟩, calm⟩
            have goes : eofToOk infoResult = .ok → n.heard a 1 ≠ 0 := by simpa [Calm, harmful, site] using calm
            have walked : Shows (Calm cfg strict) (if n.heard a 1 ≠ 0 then do
                  setProgress fun p => { p with
                    totalBytesCopied := p.totalBytesCopied + defaultSizeOverhead
                    topLevelItem := false }
                  loop (copyEntry cfg (copyDirectory cfg fuel) fuel (if infoResult = .ok then some dirInfo else none)
                    source target sourceHandle) fuel false
                else pure (infoResult, false))
                (fun r trace => eofToOk r.1 = .ok → r.2 = false →
                  Entries cfg strict sourceHandle source target trace) := by
              apply Shows.ite
              · intro _
                apply (shows_entries nested).mono
                rintro r trace ⟨failed, done⟩ ok
                exact done ((eofToOk_ok ok).resolve_left failed)
              · exact fun stopped => shows_pure fun ok => absurd (goes ok) stopped
            apply Shows.bind walked
            rintro ⟨result, skip⟩ entries done
            apply shows_closeDirectories.mono
            rintro _ closing ⟨rfl, closes⟩
            refine ⟨eofToOk_ne_eof result, fun complete => ?_⟩
            obtain ⟨ok, unskipped⟩ := Prod.mk.inj complete
            have opening : Quiet (⟨.notify first, a₁⟩ :: creates ++
                [⟨.getFileInfo target {}, (infoResult, dirInfo)⟩, ⟨.notify n, a⟩]) :=
              Quiet.append (List.forall_mem_cons.mpr ⟨trivial, quiet⟩)
                (List.forall_mem_cons.mpr ⟨trivial, List.forall_mem_singleton.mpr trivial⟩)
            have copied := Copied.directory type opening (made.append [⟨.notify first, a₁⟩] _)
              (done ok unskipped) closes
            simpa using copied

end Directories

section Items

variable {fuel : Nat} {source target : U} {mode : OverwriteMode}

/-- Nothing happens to an object of another type. -/
theorem copyOne_other {info dirInfo : FileInfo} {result : VfsResult} {skip : Bool}
    (other : info.type.copyable = false) :
    copyOne cfg fuel info dirInfo source target result skip = pure (result, skip) := by
  unfold copyOne
  cases type : info.type <;> simp_all [FileType.copyable]

theorem shows_copyOne {info read dirInfo : FileInfo} {result : VfsResult} {skip : Bool} (same : SameObject info read) :
    Shows (Calm cfg strict) (copyOne cfg fuel info dirInfo source target result skip)
      (fun r trace => r = (.ok, false) → (read.type.copyable = false → result = .interrupted) →
        Copied cfg strict read source target trace) := by
  cases copyable : read.type.copyable with
  | false =>
    rw [copyOne_other (by rw [same.type, copyable])]
    apply shows_pure
    intro complete stopped
    simp [stopped rfl] at complete
  | true =>
    have whole : Shows (Calm cfg strict) (copyOne cfg fuel info dirInfo source target result skip)
        (Whole (Copied cfg strict read source target)) := by
      unfold copyOne
      rw [same.type]
      rcases copyable_cases copyable with type | type | type
      · rw [type]
        exact shows_copyFile.mono fun _ _ whole => whole.mono (.file type)
      · rw [type]
        exact copiesDirectories_copyDirectory fuel info read source target skip type
      · rw [type, same.symlinkName]
        exact (shows_copySymlink.and_makes makes_copySymlink).mono fun _ _ whole => whole.1.mono (.link type whole.2)
    exact whole.mono fun _ _ whole complete _ => whole.2 complete

/-- Where no step of the round is harmful, it copies the whole object. -/
def RoundCopies (cfg : Config U) (strict : Bool) (read : FileInfo) (source : U) (round : Trace U) : Prop :=
  (∀ e ∈ round, harmful cfg strict e = false) →
    ∃ n a copy target, round = ⟨.notify n, a⟩ :: copy ∧ Copied cfg strict read source target copy

/-- How a round ends: the list is left alone, or the source is put in front of it. -/
def Attempted (cfg : Config U) (strict : Bool) (read : FileInfo) (source : U) (copied : List U) :
    Step (CopyLoop U) (VfsResult × List U) → Trace U → Prop
  | .again v, _ => v.copied = copied
  | .finish r, trace => r.2 = copied ∨ (r = (.ok, source :: copied) ∧ RoundCopies cfg strict read source trace)

theorem shows_copyAttempt {info read dirInfo : FileInfo} {targetItem targetDir : U} {v : CopyLoop U}
    (same : SameObject info read) :
    Shows (fun _ => True) (copyAttempt cfg fuel mode info dirInfo source targetItem targetDir v)
      (Attempted cfg strict read source v.copied) := by
  apply Shows.get
  intro s
  apply Shows.bind shows_setProgress
  rintro _ _ rfl
  apply Shows.bind shows_callProgressWithUrisOften
  rintro answer _ ⟨⟨n, a, site, rfl, rfl⟩, _⟩
  have sets : Shows (fun _ => True) (setOverwriteMode (if cfg.options.useUniqueNames then .abort else mode) : XferM U Unit)
      (fun _ trace => trace = []) := shows_of_record fun _ => rfl
  apply Shows.bind sets
  rintro _ _ rfl
  apply Shows.bind (shows_copyOne same).conditional
  rintro ⟨result, skip⟩ copy done
  apply Shows.ite
  · intro _
    apply shows_pure
    by_cases complete : result = .ok ∧ skip = false
    · obtain ⟨rfl, rfl⟩ := complete
      refine Or.inr ⟨rfl, fun calm => ?_⟩
      have whole := done (fun e member => calm e (by simp [member])) rfl
      refine ⟨n, a, copy, _, by simp, whole fun other => ?_⟩
      have notice : Calm cfg strict (⟨.notify n, a⟩ : XferEvent U) := calm _ (by simp)
      have zero : n.heard a 1 = 0 := by simpa [Calm, harmful, site, same.type, other] using notice
      rw [if_pos zero]
    · have kept : (result = .ok && !skip) = false := by simpa using complete
      exact Or.inl (by simp [kept])
  · intro conflict
    have exists' : result = .fileExists := by
      simp only [Bool.or_eq_true, decide_eq_true_eq, not_or, not_not] at conflict
      exact conflict.1
    apply Shows.bind shows_any
    intro _ _ _
    apply Shows.bind shows_any
    intro answer _ _
    apply Shows.bind shows_any
    intro _ _ _
    apply Shows.ite
    · exact fun _ => shows_pure (Or.inl (by simp [exists']))
    · exact fun _ => shows_pure (by simp [Attempted, exists'])

/-- The events are the round of the loop in `copy_items` that takes the object for copied. -/
def AddedIn (cfg : Config U) (fuel : Nat) (source : U) (read : FileInfo) (round : Trace U) : Prop :=
  ∃ mode info dirInfo targetItem targetDir v s s', SameObject info read ∧
    Runs (copyAttempt cfg fuel mode info dirInfo source targetItem targetDir v s) round
      (.returned (.finish (.ok, source :: v.copied), s'))

/-- The item was looked at and a round put it in the list, and where no step of that round is harmful
the round copies the whole item. -/
def ItemAdded (cfg : Config U) (fuel : Nat) (strict : Bool) (uri : U) (trace : Trace U) : Prop :=
  ∃ read front middle round back,
    trace = front ++ ⟨.getFileInfo uri {}, (.ok, read)⟩ :: (middle ++ round ++ back) ∧
    AddedIn cfg fuel uri read round ∧ RoundCopies cfg strict read uri round

theorem ItemAdded.append {uri : U} {trace : Trace U} (added : ItemAdded cfg fuel strict uri trace)
    (before after : Trace U) : ItemAdded cfg fuel strict uri (before ++ trace ++ after) := by
  obtain ⟨read, front, middle, round, back, rfl, whole⟩ := added
  exact ⟨read, before ++ front, middle, round, back ++ after, by simp, whole⟩

/-- All items in the list of the copied ones have been put there. -/
def AllAdded (cfg : Config U) (fuel : Nat) (strict : Bool) (r : VfsResult × List U) (trace : Trace U) : Prop :=
  ∀ u ∈ r.2, ItemAdded cfg fuel strict u trace

theorem AllAdded.append {r : VfsResult × List U} {result : VfsResult} {trace : Trace U}
    (all : AllAdded cfg fuel strict r trace) (more : Trace U) :
    AllAdded cfg fuel strict (result, r.2) (trace ++ more) :=
  fun u member => (all u member).append [] more

theorem shows_copyItem {item : U × U} {before : VfsResult} {copied : List U} {acc : Trace U}
    (all : AllAdded cfg fuel strict (before, copied) acc) :
    Shows (fun _ => True) (copyItem cfg fuel mode item copied)
      (Round (AllAdded cfg fuel strict) (AllAdded cfg fuel strict) acc) := by
  apply Shows.bind shows_setProgress
  rintro _ _ rfl
  apply Shows.bind shows_call
  rintro ⟨result, read⟩ _ ⟨_, rfl⟩
  apply Shows.bind shows_setProgress
  rintro _ _ rfl
  apply Shows.ite
  · exact fun _ => shows_pure (all.append _)
  · intro passed
    have ok : result = .ok := not_not.mp passed
    subst ok
    apply Shows.bind shows_call
    rintro ⟨dirResult, dirInfo⟩ _ ⟨_, rfl⟩
    have rounds : Shows (fun _ => True) (loop (copyAttempt cfg fuel mode
        (inheritGroup read (if dirResult = .ok then some dirInfo else none)) dirInfo item.1 item.2
        (cfg.uris.getParent item.2)) fuel ⟨.ok, 1, false, copied⟩)
        (fun r trace => r.2 = copied ∨ (r = (.ok, item.1 :: copied) ∧ ∃ front round, trace = front ++ round ∧
          AddedIn cfg fuel item.1 read round ∧ RoundCopies cfg strict read item.1 round)) := by
      apply Shows.loop (fun v _ => v.copied = copied) _ fuel _ rfl
      rintro v acc rfl
      have same := sameObject_inheritGroup read (if dirResult = .ok then some dirInfo else none)
      apply ((shows_copyAttempt same).and shows_runs).mono
      rintro (w | r) round ⟨attempted, s, s', run⟩
      · exact attempted
      · rcases attempted with unchanged | ⟨rfl, whole⟩
        · exact Or.inl unchanged
        · exact Or.inr ⟨rfl, acc, round, rfl, ⟨_, _, _, _, _, v, s, s', same, run⟩, whole⟩
    apply Shows.bind rounds
    rintro ⟨result, longer⟩ events added
    have next : AllAdded cfg fuel strict (result, longer) (acc ++ ([⟨.getFileInfo item.1 {}, (.ok, read)⟩,
        ⟨.getFileInfo (cfg.uris.getParent item.2) {}, (dirResult, dirInfo)⟩] ++ events)) := by
      rcases added with (unchanged : longer = copied) | ⟨added, front, round, rfl, whole⟩
      · rw [unchanged]
        exact all.append _
      · rw [(Prod.mk.inj added).2]
        intro u member
        rcases List.mem_cons.mp member with rfl | member
        · exact ⟨read, acc, ⟨.getFileInfo (cfg.uris.getParent item.2) {}, (dirResult, dirInfo)⟩ :: front, round, [],
            by simp, whole⟩
        · exact (all u member).append [] _
    apply Shows.ite
    · exact fun _ => shows_pure (by simpa [Round] using next)
    · exact fun _ => shows_pure (by simpa [Round] using next)

theorem shows_copyItems {sources targets : List U} :
    Shows (fun _ => True) (copyItems cfg fuel sources targets mode) (AllAdded cfg fuel strict) := by
  apply Shows.each (AllAdded cfg fuel strict)
  · rintro item ⟨result, copied⟩ acc all
    exact shows_copyItem all
  · exact fun _ member => by simp at member

theorem shows_transferItems {prepared : Prepared U} :
    Shows (fun _ => True) (transferItems cfg fuel prepared) (AllAdded cfg fuel strict) := by
  apply Shows.ite
  · intro _
    apply Shows.bind shows_any
    intro result moves _
    apply Shows.ite
    · intro _
      apply Shows.get
      intro s
      apply shows_copyItems.mono
      intro r trace (all : AllAdded cfg fuel strict r trace) u member
      have whole := (all u member).append moves []
      simpa using whole
    · exact fun _ => shows_pure fun _ member => by simp at member
  · intro _
    apply Shows.ite
    · intro _
      apply Shows.bind shows_any
      exact fun _ _ _ => shows_pure fun _ member => by simp at member
    · intro _
      apply Shows.get
      intro s
      exact shows_copyItems

end Items

section Runs

variable {fuel : Nat} {sources targets copied : List U} {prepared : Prepared U} {s s₁ s₂ : State}
  {prepare transfer rest : Trace U} {out : Outcome Stop (VfsResult × State)}

/-- The preparation ends in an error, or hands on whether the items are to be linked. -/
def LinkIs (link : Bool) : Except VfsResult (Prepared U) → Prop
  | .error _ => True
  | .ok prepared => prepared.link = link

theorem prepareCounted_link {move link : Bool} :
    Shows (fun _ => True) (prepareCounted cfg fuel sources targets move link) (fun r _ => LinkIs link r) := by
  apply Shows.bind shows_any
  intro targetDir _ _
  apply Shows.bind shows_any
  rintro ⟨free, freeBytes⟩ _ _
  apply Shows.get
  intro s
  apply Shows.bind shows_any
  intro result _ _
  apply Shows.ite
  · exact fun _ => shows_pure trivial
  · intro _
    have kept : Shows (fun _ => True) (if cfg.options.useUniqueNames then
        (pure (VfsResult.ok, ⟨move, link, sources, targets, [], []⟩) : XferM U (VfsResult × Prepared U))
        else settleConflicts cfg fuel sources targets move link) (fun r _ => r.2.link = link) := by
      apply Shows.ite
      · exact fun _ => shows_pure rfl
      · intro _
        apply Shows.get
        intro saved
        apply Shows.bind shows_any
        intro _ _ _
        apply Shows.bind shows_any
        intro v _ _
        apply Shows.bind shows_any
        intro _ _ _
        apply Shows.bind shows_any
        intro result _ _
        apply Shows.bind shows_any
        exact fun _ _ _ => shows_pure rfl
    apply Shows.bind kept
    rintro ⟨result, prepared⟩ _ same
    apply Shows.bind shows_any
    intro _ _ _
    apply Shows.ite
    · intro _
      apply Shows.bind shows_any
      exact fun _ _ _ => shows_pure trivial
    · intro _
      apply Shows.bind shows_any
      exact fun _ _ _ => shows_pure same

theorem xferPrepare_link :
    Shows (fun _ => True) (xferPrepare cfg fuel sources targets) (fun r _ => LinkIs cfg.options.linkItems r) := by
  apply Shows.bind shows_any
  intro _ _ _
  apply Shows.bind shows_any
  intro targetDir _ _
  apply Shows.bind shows_any
  intro result _ _
  apply Shows.bind shows_any
  intro _ _ _
  apply Shows.ite
  · intro _
    apply Shows.bind shows_any
    exact fun _ _ _ => shows_pure trivial
  · intro _
    apply Shows.ite
    · exact fun _ => shows_pure trivial
    · intro _
      apply Shows.bind shows_any
      rintro ⟨result, move⟩ _ _
      apply Shows.ite
      · exact fun _ => shows_pure trivial
      · intro _
        apply Shows.bind shows_any
        intro _ _ _
        apply Shows.bind shows_any
        intro result _ _
        apply Shows.ite
        · exact fun _ => shows_pure trivial
        · exact fun _ => prepareCounted_link

/-- The move up to the end of the transfer, as part of a run that goes on somehow. -/
structure Transferred (cfg : Config U) (fuel : Nat) (sources targets copied : List U) (prepared : Prepared U)
    (s s₁ s₂ : State) (prepare transfer rest : Trace U) (out : Outcome Stop (VfsResult × State)) :
    Prop where
  run : Runs (xferUriInternal cfg fuel sources targets s) (prepare ++ (transfer ++ rest)) out
  first : Runs (xferPrepare cfg fuel sources targets s) prepare (.returned (.ok prepared, s₁))
  second : Runs (transferItems cfg fuel prepared s₁) transfer (.returned ((.ok, copied), s₂))

theorem Transferred.cleaned (remove : cfg.options.removeSource = true) (copies : cfg.options.linkItems = false)
    (parts : Transferred cfg fuel sources targets copied prepared s s₁ s₂ prepare transfer rest out) :
    Runs (cleanUp cfg fuel copied s₂) rest out := by
  have link : prepared.link = cfg.options.linkItems := xferPrepare_link.holds parts.first fun _ _ => trivial
  have transfers := Action.runs_bind_rest parts.run parts.first
  have ends := Action.runs_bind_rest transfers parts.second
  simpa [remove, link, copies] using ends

/-- A run of `gnome_vfs_xfer_uri_internal` whose transfer has gone well goes on with the deletion of the copied
items. Each of them was put in their list by a round that copied all of it, unless a step of that round is
harmful. -/
theorem move_deletes_copied (remove : cfg.options.removeSource = true) (copies : cfg.options.linkItems = false)
    (run : Runs (xferUriInternal cfg fuel sources targets s) (prepare ++ (transfer ++ rest)) out)
    (first : Runs (xferPrepare cfg fuel sources targets s) prepare (.returned (.ok prepared, s₁)))
    (second : Runs (transferItems cfg fuel prepared s₁) transfer (.returned ((.ok, copied), s₂))) :
    Runs (cleanUp cfg fuel copied s₂) rest out ∧ ∀ u ∈ copied, ItemAdded cfg fuel strict u transfer := by
  have parts : Transferred cfg fuel sources targets copied prepared s s₁ s₂ prepare transfer rest out :=
    ⟨run, first, second⟩
  exact ⟨parts.cleaned remove copies, shows_transferItems.holds second fun _ _ => trivial⟩

end Runs

/-- The transfer of a move against one world: what it takes for copied, and its events. -/
def transferOf (reply : Unit → (op : Op U) → op.Reply × Unit) (cfg : Config U) (fuel : Nat)
    (sources targets : List U) (s : State) : Option (List U × Trace U) :=
  match (Prog.exec reply (xferPrepare cfg fuel sources targets s) ()).2 with
  | .returned (.ok prepared, s₁) =>
    match Prog.exec reply (transferItems cfg fuel prepared s₁) () with
    | (transfer, .returned ((.ok, copied), _)) => some (copied, transfer)
    | _ => none
  | _ => none

theorem transferOf_runs {reply : Unit → (op : Op U) → op.Reply × Unit} {fuel : Nat}
    {sources targets copied : List U} {s : State} {transfer : Trace U}
    (found : transferOf reply cfg fuel sources targets s = some (copied, transfer)) :
    ∃ prepared s₁ s₂ prepare rest out,
      Transferred cfg fuel sources targets copied prepared s s₁ s₂ prepare transfer rest out := by
  have first := Prog.exec_runs reply (xferPrepare cfg fuel sources targets s) ()
  unfold transferOf at found
  split at found
  · rename_i prepared s₁ prepares
    rw [prepares] at first
    have second := Prog.exec_runs reply (transferItems cfg fuel prepared s₁) ()
    split at found
    · rename_i transfer' copied' s₂ transfers
      cases found
      rw [transfers] at second
      have whole : ∃ rest out, Runs (xferUriInternal cfg fuel sources targets s)
          ((Prog.exec reply (xferPrepare cfg fuel sources targets s) ()).1 ++ (transfer ++ rest)) out :=
        ⟨_, _, Action.runs_bind first (Action.runs_bind second (Prog.exec_runs reply _ ()))⟩
      obtain ⟨rest, out, run⟩ := whole
      exact ⟨prepared, s₁, s₂, _, rest, out, run, first, second⟩
    · cases found
  · cases found

/-- A move to another file system, of one object with the given type. -/
def moveReply (type : FileType) : Unit → (op : Op Bytes) → op.Reply × Unit
  | _, .checkSameFs _ _ => ((.ok, false), ())
  | _, .getFileInfo u _ =>
    (if u = ascii "/b/a" then (.notFound, { name := u, type := .unknown })
    else (.ok, { name := u, type := if u = ascii "/a" then type else .directory }), ())
  | _, op => (calmReply op, ())

/-- The object was looked at and had a type that can be copied. -/
def looksCopyable [DecidableEq U] (uri : U) : XferEvent U → Bool
  | ⟨.getFileInfo u _, r⟩ => u = uri && r.2.type.copyable
  | _ => false

theorem ItemCopied.looksCopyable [DecidableEq U] {uri : U} {trace : Trace U}
    (copied : ItemCopied cfg strict uri trace) : trace.any (looksCopyable uri) = true := by
  obtain ⟨info, target, front, middle, copy, back, rfl, copied⟩ := copied
  have copyable : info.type.copyable = true := by
    cases copied with
    | file type _ => rw [type]; rfl
    | link type _ _ => rw [type]; rfl
    | followed _ _ type _ => rw [type]; rfl
    | directory type _ _ _ _ => rw [type]; rfl
  simp [Xfer.looksCopyable, copyable]

def moveConfig : Config Bytes := plainConfig { removeSource := true }

def moveTransfer (type : FileType) : Option (List Bytes × Trace Bytes) :=
  transferOf (moveReply type) moveConfig 4 [ascii "/a"] [ascii "/b/a"] { overwriteMode := .abort }

/-- A file is moved: it is copied, and then deleted. -/
theorem move_deletes_copied_file : ∃ prepared s₁ s₂ prepare transfer rest out,
    Transferred moveConfig 4 [ascii "/a"] [ascii "/b/a"] [ascii "/a"] prepared { overwriteMode := .abort } s₁ s₂
      prepare transfer rest out ∧
    (∀ e ∈ transfer, harmful moveConfig true e = false) ∧
    Runs (cleanUp moveConfig 4 [ascii "/a"] s₂) rest out ∧ ItemCopied moveConfig true (ascii "/a") transfer := by
  have checked : (moveTransfer .regular).any (fun r => r.1 = [ascii "/a"] &&
      r.2.all fun e => !harmful moveConfig true e) = true := by decide +kernel
  obtain ⟨⟨copied, transfer⟩, found, good⟩ := (Option.any_eq_true _ _).mp checked
  simp only [Bool.and_eq_true, decide_eq_true_eq, List.all_eq_true, Bool.not_eq_true'] at good
  obtain ⟨rfl, calm⟩ := good
  obtain ⟨prepared, s₁, s₂, prepare, rest, out, parts⟩ := transferOf_runs found
  obtain ⟨cleaned, all⟩ := move_deletes_copied rfl rfl parts.run parts.first parts.second
  obtain ⟨read, front, middle, round, back, rfl, -, whole⟩ := all (ascii "/a") (by simp)
  obtain ⟨n, a, copy, target, rfl, complete⟩ := whole fun e member => calm e (by simp [member])
  exact ⟨prepared, s₁, s₂, prepare, _, rest, out, parts, calm, cleaned, read, target, front,
    middle ++ [⟨.notify n, a⟩], copy, back, by simp, complete⟩

/-- A fifo is moved: it is not copied, and deleted all the same. -/
theorem move_deletes_uncopied : ∃ prepared s₁ s₂ prepare transfer rest out,
    Transferred moveConfig 4 [ascii "/a"] [ascii "/b/a"] [ascii "/a"] prepared { overwriteMode := .abort } s₁ s₂
      prepare transfer rest out ∧
    Runs (cleanUp moveConfig 4 [ascii "/a"] s₂) rest out ∧ ¬ ItemCopied moveConfig false (ascii "/a") transfer := by
  have checked : (moveTransfer .fifo).any (fun r => r.1 = [ascii "/a"] &&
      !r.2.any (looksCopyable (ascii "/a"))) = true := by decide +kernel
  obtain ⟨⟨copied, transfer⟩, found, good⟩ := (Option.any_eq_true _ _).mp checked
  simp only [Bool.and_eq_true, decide_eq_true_eq, Bool.not_eq_true'] at good
  obtain ⟨rfl, other⟩ := good
  obtain ⟨prepared, s₁, s₂, prepare, rest, out, parts⟩ := transferOf_runs found
  refine ⟨prepared, s₁, s₂, prepare, transfer, rest, out, parts, parts.cleaned rfl rfl, fun copied => ?_⟩
  rw [copied.looksCopyable] at other
  exact Bool.noConfusion other

end GnomeVfs.Xfer
