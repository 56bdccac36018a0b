import GnomeVfs.XferUnique

/- What becomes of an object that a new symbolic link or directory is to replace, in a tree where
every operation that can succeed does. -/
namespace GnomeVfs.Xfer

open Interaction
open Interaction.Action (wp)

variable {U : Type}

section Tree

structure Entry where
  type : FileType
  reference : Bytes := []
  deriving DecidableEq

/-- What the names stand for. -/
abbrev Tree (U : Type) := U → Option Entry

variable [DecidableEq U]

def Tree.put (t : Tree U) (name : U) (entry : Option Entry) : Tree U := fun u => if u = name then entry else t u

/-- The tree behind an event, where the reply is one that it can give. A new object needs a free
name, and only a directory cannot be unlinked. -/
def treeStep (t : Tree U) : XferEvent U → Option (Tree U)
  | ⟨.createSymbolicLink u reference, r⟩ =>
    if t u = none then if r = .ok then some (t.put u (some ⟨.symbolicLink, reference⟩)) else none
    else if r = .fileExists then some t else none
  | ⟨.makeDirectory u, r⟩ =>
    if t u = none then if r = .ok then some (t.put u (some { type := .directory })) else none
    else if r = .fileExists then some t else none
  | ⟨.unlink u, r⟩ =>
    if (t u).any (·.type ≠ .directory) then if r = .ok then some (t.put u none) else none
    else if r ≠ .ok then some t else none
  | ⟨.getFileInfo u _, r⟩ =>
    match t u with
    | none => if r.1 ≠ .ok then some t else none
    | some entry => if r.1 = .ok ∧ r.2.type = entry.type then some t else none
  | ⟨.openDirectory u _, r⟩ =>
    match t u with
    | none => if r.1 ≠ .ok then some t else none
    | some entry => if entry.type = .directory → r.1 = .ok then some t else none
  | _ => some t

theorem put_same (t : Tree U) (name : U) (entry : Option Entry) : t.put name entry name = entry := if_pos rfl

/-- The run has been given a reply that the tree cannot give. -/
abbrev Impossible (t : Tree U) (m : Trace U) : Prop := m.foldlM treeStep t = none

variable {t after : Tree U} {m : Trace U}

theorem foldlM_record (happen : m.foldlM treeStep t = some after) (e : XferEvent U) :
    (record m e).foldlM treeStep t = treeStep after e := by
  rw [record, List.foldlM_append, happen]
  simp

theorem wp_impossible {α : Type} {x : XferM U α} {s : State} (impossible : Impossible t m) :
    wp record x s (fun _ _ m => Impossible t m) (fun _ m => Impossible t m) m := by
  apply Action.wp_record_keeps _ impossible
  intro m e impossible
  rw [Impossible, List.foldlM_append, show m.foldlM treeStep t = none from impossible]
  rfl

end Tree

/-- The callback answers a name conflict with the choice to replace. -/
abbrev Replacing (action : Int) : Prop := action = overwriteActionReplace ∨ action = overwriteActionReplaceAll

theorem answered_replacing {action : Int} {result : VfsResult} (replacing : Replacing action) :
    Overwritten.answered action result = ⟨true, result, true, false⟩ := by
  rcases replacing with rfl | rfl <;> rfl

theorem answered_other {action : Int} {result : VfsResult} (other : ¬ Replacing action) :
    (Overwritten.answered action result).replace = false ∧ (Overwritten.answered action result).retry = false := by
  unfold Overwritten.answered
  split
  · exact ⟨rfl, rfl⟩
  · split <;> exact ⟨rfl, rfl⟩

def ChoosesReplace : XferEvent U → Prop
  | ⟨.notify n, a⟩ => n.site = .handleOverwrite → Replacing (n.heard a errorActionAbort)
  | _ => True

/-- Where it is to be decided whether to replace, that is what is chosen. -/
def Chosen (mode : OverwriteMode) (trace : Trace U) : Prop :=
  mode = .replace ∨ mode = .query ∧ ∀ e ∈ trace, ChoosesReplace e

def Unlinks (target : U) : XferEvent U → Prop
  | ⟨.unlink u, _⟩ => u = target
  | _ => False

/-- The callback cancels when the link has been made. -/
def CancelsLink : XferEvent U → Prop
  | ⟨.notify n, a⟩ => n.site = .symlinkCreated ∧ n.heard a 1 = 0
  | _ => False

/-- The callback has an error retried. -/
def Retries : XferEvent U → Prop
  | ⟨.notify n, a⟩ => n.site = .handleError ∧ n.heard a errorActionAbort = errorActionRetry
  | _ => False

/-- If replacing is chosen the new object is made, and nothing is removed unless it is made. -/
def Replaces (mode : OverwriteMode) (target : U) (trace : Trace U) (Made : Prop) : Prop :=
  (Chosen mode trace → Made) ∧ ((∃ e ∈ trace, Unlinks target e) → Made)

variable {r : VfsResult} {n : Notice} {a : Answer} {linkName : Bytes} {mode : OverwriteMode}

section Symlink

variable [DecidableEq U] {cfg : Config U} {t after : Tree U} {m : Trace U} {s : State} {target : U} {entry : Entry}

/-- The call that is first made on a name that is taken. -/
theorem treeStep_symlink_taken (taken : t target = some entry) {reference : Bytes} :
    treeStep t ⟨.createSymbolicLink target reference, r⟩ = if r = .fileExists then some t else none := by
  simp [treeStep, taken]

theorem treeStep_notify : treeStep t ⟨.notify n, a⟩ = some t := rfl

theorem treeStep_symlink_free (free : t target = none) {reference : Bytes} :
    treeStep t ⟨.createSymbolicLink target reference, r⟩ =
      if r = .ok then some (t.put target (some ⟨.symbolicLink, reference⟩)) else none := by
  simp [treeStep, free]

theorem treeStep_unlink (taken : t target = some entry) (solid : entry.type ≠ .directory) :
    treeStep t ⟨.unlink target, r⟩ = if r = .ok then some (t.put target none) else none := by
  simp [treeStep, taken, solid]

/-- How `copy_symlink` ends on a name that is taken by something else than a directory. -/
inductive LinkRun (target : U) (linkName : Bytes) (t : Tree U) (mode : OverwriteMode) :
    VfsResult × Bool → Trace U → Prop where
  | removed {a : VfsResult} : mode = .replace →
      LinkRun target linkName t mode (.fileExists, false)
        [⟨.createSymbolicLink target linkName, .fileExists⟩, ⟨.unlink target, a⟩]
  | kept {r : VfsResult × Bool} : mode = .abort ∨ mode = .skip →
      LinkRun target linkName t mode r [⟨.createSymbolicLink target linkName, .fileExists⟩]
  | refused {r : VfsResult × Bool} {n : Notice} {a : Answer} : mode = .query → n.site = .handleOverwrite →
      ¬ Replacing (n.heard a errorActionAbort) →
      LinkRun target linkName t mode r [⟨.createSymbolicLink target linkName, .fileExists⟩, ⟨.notify n, a⟩]
  | replaced {n n' : Notice} {a a' : Answer} : mode = .query → n.site = .handleOverwrite →
      Replacing (n.heard a errorActionAbort) → n'.site = .symlinkCreated →
      LinkRun target linkName t mode (if n'.heard a' 1 = 0 then .interrupted else .ok, false)
        [⟨.createSymbolicLink target linkName, .fileExists⟩, ⟨.notify n, a⟩, ⟨.unlink target, .ok⟩,
          ⟨.createSymbolicLink target linkName, .ok⟩, ⟨.notify n', a'⟩]

theorem wp_off {α : Type} {x : XferM U α} {Q : α → Trace U → Prop} (impossible : Impossible t m) :
    wp record x s (fun r _ m => Impossible t m ∨ Q r m) (fun _ m => Impossible t m) m :=
  Action.wp_mono (wp_impossible impossible) (fun _ _ _ off => Or.inl off) fun _ _ off => off

/-- How a round of `copy_symlink` ends. -/
def LinkRound (target : U) (linkName : Bytes) (t : Tree U) (mode : OverwriteMode) :
    Step (Bool × Bool) (VfsResult × Bool) → Trace U → Prop
  | .again x, m => x.2 = false ∧ mode = .query ∧ ∃ n a, n.site = .handleOverwrite ∧
      Replacing (n.heard a errorActionAbort) ∧ m = [⟨.createSymbolicLink target linkName, .fileExists⟩, ⟨.notify n, a⟩,
        ⟨.unlink target, .ok⟩]
  | .finish r, m => LinkRun target linkName t mode (if r.2 then .ok else r.1, r.2) m

theorem wp_createLink_first (taken : t target = some entry) (solid : entry.type ≠ .directory) {source : U} :
    wp record (createLink cfg source target linkName (false, false)) s
      (fun r _ m => Impossible t m ∨ LinkRound target linkName t s.overwriteMode r m) (fun _ m => Impossible t m) [] := by
  simp only [createLink, Action.wp_bind, wp_ask]
  intro result
  by_cases exists_ : result = .fileExists
  · subst exists_
    rw [if_pos rfl]
    simp only [Action.wp_bind, Action.wp_get]
    rw [Action.wp_ite]
    constructor
    · intro first
      have mode : s.overwriteMode = .replace := by simpa using first
      simp only [tell, Action.wp_bind, wp_ask, Action.wp_pure]
      exact fun a => Or.inr (.removed mode)
    · intro later
      have other : s.overwriteMode ≠ .replace := by simpa using later
      simp only [Action.wp_bind]
      apply wp_handleOverwrite_answered
      · intro unasked
        have mode : s.overwriteMode = .abort ∨ s.overwriteMode = .skip := by
          cases known : s.overwriteMode <;> simp_all
        rcases mode with mode | mode <;>
          · rw [mode]
            simp only [Overwritten.fixed, doIf, Bool.false_eq_true, if_false, Action.wp_pure]
            exact Or.inr (.kept (by simp))
      · intro mode n a s' site _
        by_cases replacing : Replacing (n.heard a errorActionAbort)
        · rw [answered_replacing replacing]
          simp only [doIf, if_true, tell, Action.wp_bind, wp_ask, Action.wp_pure]
          intro r
          have happen : (record (record [] (⟨.createSymbolicLink target linkName, VfsResult.fileExists⟩ : XferEvent U))
              ⟨.notify n, a⟩).foldlM treeStep t = some t := by
            simp [record, treeStep, taken]
          by_cases removed : r = .ok
          · subst removed
            exact Or.inr ⟨rfl, mode, n, a, site, replacing, rfl⟩
          · refine Or.inl ?_
            rw [Impossible, foldlM_record happen, treeStep_unlink taken solid, if_neg removed]
        · obtain ⟨kept, unretried⟩ := @answered_other _ .fileExists replacing
          rw [kept, unretried]
          simp only [doIf, Bool.false_eq_true, if_false, Action.wp_pure]
          exact Or.inr (.refused mode site replacing)
  · have off : Impossible t (record [] (⟨.createSymbolicLink target linkName, result⟩ : XferEvent U)) := by
      simp [record, Impossible, treeStep_symlink_taken taken, exists_]
    exact wp_off off

/-- On a free name the link is made, and the callback is told. -/
theorem wp_createLink_free {between : Tree U} (happen : m.foldlM treeStep t = some between)
    (free : between target = none) {source : U} {tried : Bool} :
    wp record (createLink cfg source target linkName (tried, false)) s (fun r _ m' => Impossible t m' ∨
      ∃ n a, n.site = .symlinkCreated ∧ r = .finish (if n.heard a 1 = 0 then .interrupted else .ok, false) ∧
        m' = m ++ [⟨.createSymbolicLink target linkName, .ok⟩, ⟨.notify n, a⟩]) (fun _ m => Impossible t m) m := by
  simp only [createLink, Action.wp_bind, wp_ask]
  intro result
  by_cases made : result = .ok
  · subst made
    rw [if_neg (VfsResult.noConfusion : VfsResult.ok ≠ .fileExists), if_neg (not_not.mpr rfl)]
    simp only [Action.wp_bind]
    apply wp_callProgressWithUrisOften
    intro n a s' sent
    have named : record (record m ⟨.createSymbolicLink target linkName, .ok⟩) ⟨.notify n, a⟩ =
        m ++ [(⟨.createSymbolicLink target linkName, .ok⟩ : XferEvent U), ⟨.notify n, a⟩] := by simp [record]
    simp only [Action.wp_ite, Action.wp_pure]
    refine ⟨fun cancelled => Or.inr ⟨n, a, sent.site, ?_, named⟩, fun going => Or.inr ⟨n, a, sent.site, ?_, named⟩⟩
    · rw [if_pos cancelled]
    · rw [if_neg going]
  · have off : Impossible t (record m (⟨.createSymbolicLink target linkName, result⟩ : XferEvent U)) := by
      rw [Impossible, foldlM_record happen, treeStep_symlink_free free, if_neg made]
    exact wp_off off

theorem wp_copySymlink (taken : t target = some entry) (solid : entry.type ≠ .directory) {fuel : Nat} {source : U}
    {linkName : Bytes} :
    wp record (copySymlink cfg (fuel + 2) source target linkName) s
      (fun r _ m => Impossible t m ∨ LinkRun target linkName t s.overwriteMode r m) (fun _ m => Impossible t m) [] := by
  rw [copySymlink, Action.wp_bind, loop, Action.loop, Action.wp_bind]
  refine Action.wp_mono (wp_createLink_first taken solid) ?_ fun _ _ off => off
  rintro r s' m (off | round)
  · exact Action.wp_mono (wp_impossible off) (fun _ _ _ off => Action.wp_pure.mpr (Or.inl off)) fun _ _ off => off
  · cases r with
    | finish r => exact Or.inr round
    | again x =>
      obtain ⟨tried, skip⟩ := x
      obtain ⟨rfl, mode, n, a, site, replacing, rfl⟩ := round
      have happen : ([⟨.createSymbolicLink target linkName, .fileExists⟩, ⟨.notify n, a⟩, ⟨.unlink target, .ok⟩] :
          Trace U).foldlM treeStep t = some (t.put target none) := by
        simp [treeStep, taken, solid]
      simp only [Action.loop, Action.wp_bind]
      refine Action.wp_mono (wp_createLink_free happen (put_same t target none)) ?_ fun _ _ off => off
      rintro r s'' m (off | ⟨n', a', site', rfl, rfl⟩)
      · exact Action.wp_mono (wp_impossible off) (fun _ _ _ off => Action.wp_pure.mpr (Or.inl off)) fun _ _ off => off
      · exact Or.inr (.replaced mode site replacing site')

/-- The link replaces what was there unless the mode is `REPLACE` from the start or the callback cancels. -/
theorem LinkRun.replaced_iff {r : VfsResult × Bool} (solid : entry.type ≠ .directory)
    (taken : t target = some entry) (ends : LinkRun target linkName t mode r m)
    (happen : m.foldlM treeStep t = some after) :
    Replaces mode target m (r = (.ok, false) ∧ after target = some ⟨.symbolicLink, linkName⟩) ↔
      mode ≠ .replace ∧ ∀ e ∈ m, ¬ CancelsLink e := by
  cases ends with
  | removed mode => simp [Replaces, Chosen, mode]
  | kept mode => rcases mode with rfl | rfl <;> simp [Replaces, Chosen, Unlinks, CancelsLink]
  | refused mode site other => simp [Replaces, Chosen, Unlinks, CancelsLink, ChoosesReplace, mode, site, other]
  | @replaced n n' a a' mode site replacing site' =>
    have made : after target = some ⟨.symbolicLink, linkName⟩ := by
      simp only [List.foldlM_cons, List.foldlM_nil, treeStep_symlink_taken taken, treeStep_notify, Option.bind_eq_bind,
        Option.bind_some, treeStep_unlink taken solid, treeStep_symlink_free (put_same t target none), if_true,
        Option.pure_def, Option.some.injEq] at happen
      rw [← happen, put_same]
    simp [Replaces, Chosen, Unlinks, CancelsLink, ChoosesReplace, mode, site, replacing, site', made]

end Symlink

variable {info : FileInfo}

section Removal

variable {cfg : Config U} {dir : U}

theorem not_chosen_append {m : Trace U} (other : ¬ Chosen mode m) (more : Trace U) :
    ¬ Chosen mode (m ++ more) := by
  rintro (mode | ⟨mode, all⟩)
  · exact other (Or.inl mode)
  · exact other (Or.inr ⟨mode, fun e member => all e (List.mem_append_left more member)⟩)

/-- What the callback is asked before something is replaced. -/
def ReplaceAsked (mode : OverwriteMode) (asked : Trace U) : Prop :=
  mode = .replace ∧ asked = [] ∨ mode = .query ∧ ∃ n a, n.site = .handleOverwrite ∧
    Replacing (n.heard a errorActionAbort) ∧ asked = [⟨.notify n, a⟩]

/-- The events up to the removal of what was there. -/
def removal (dir : U) (info : FileInfo) (asked : Trace U) (n : Notice) (a : Answer) : Trace U :=
  ⟨.makeDirectory dir, .fileExists⟩ :: ⟨.getFileInfo dir {}, (.ok, info)⟩ :: asked ++
    [⟨.unlink dir, .ok⟩, ⟨.notify n, a⟩]

theorem removal_chosen {asked more : Trace U} (known : ReplaceAsked mode asked)
    (site : n.site = .removeFile cfg.errorMode) (calm : ∀ e ∈ more, ChoosesReplace e) :
    Chosen mode (removal dir info asked n a ++ more) := by
  rcases known with ⟨mode, -⟩ | ⟨mode, n', a', site', replacing, rfl⟩
  · exact Or.inl mode
  · refine Or.inr ⟨mode, fun e member => ?_⟩
    simp only [removal, List.cons_append, List.nil_append, List.mem_cons] at member
    rcases member with rfl | rfl | rfl | rfl | rfl | later
    · trivial
    · trivial
    · exact fun _ => replacing
    · trivial
    · intro other
      rw [site] at other
      cases other
    · exact calm e later

theorem removal_unretried {asked more : Trace U} (known : ReplaceAsked mode asked)
    (site : n.site = .removeFile cfg.errorMode) (calm : ∀ e ∈ more, ¬ Retries e) :
    ∀ e ∈ removal dir info asked n a ++ more, ¬ Retries e := by
  have last : ¬ Retries (⟨.notify n, a⟩ : XferEvent U) := by
    rintro ⟨other, -⟩
    rw [site] at other
    cases other
  intro e member
  rcases known with ⟨-, rfl⟩ | ⟨-, n', a', site', -, rfl⟩ <;>
    simp only [removal, List.cons_append, List.nil_append, List.mem_cons] at member
  · rcases member with rfl | rfl | rfl | rfl | later
    · exact id
    · exact id
    · exact id
    · exact last
    · exact calm e later
  · rcases member with rfl | rfl | rfl | rfl | rfl | later
    · exact id
    · exact id
    · rintro ⟨other, -⟩
      rw [site'] at other
      cases other
    · exact id
    · exact last
    · exact calm e later

end Removal

variable {options : InfoOptions} {fuel : Nat} {asked : Trace U}

section Directory

variable [DecidableEq U] {cfg : Config U} {t after : Tree U} {m : Trace U} {s : State} {dir : U} {entry : Entry}

theorem treeStep_directory_taken (taken : t dir = some entry) :
    treeStep t ⟨.makeDirectory dir, r⟩ = if r = .fileExists then some t else none := by
  simp [treeStep, taken]

theorem treeStep_directory_free (free : t dir = none) :
    treeStep t ⟨.makeDirectory dir, r⟩ = if r = .ok then some (t.put dir (some { type := .directory })) else none := by
  simp [treeStep, free]

theorem treeStep_info (taken : t dir = some entry) {r : VfsResult × FileInfo} :
    treeStep t ⟨.getFileInfo dir options, r⟩ = if r.1 = .ok ∧ r.2.type = entry.type then some t else none := by
  simp [treeStep, taken]

theorem treeStep_open_free (free : t dir = none) {r : VfsResult × Handle} :
    treeStep t ⟨.openDirectory dir options, r⟩ = if r.1 ≠ .ok then some t else none := by
  simp [treeStep, free]

theorem treeStep_open_directory (taken : t dir = some { type := .directory }) {r : VfsResult × Handle} :
    treeStep t ⟨.openDirectory dir options, r⟩ = if r.1 = .ok then some t else none := by
  simp [treeStep, taken]

/-- What is not a directory is removed, and the callback may cancel then. -/
theorem wp_removeFile_taken {before : Tree U} (happen : m.foldlM treeStep t = some before)
    (taken : before dir = some entry) (solid : entry.type ≠ .directory) {skip : Bool} :
    wp record (removeFile cfg (fuel + 1) dir skip) s (fun r _ m' => Impossible t m' ∨
      ∃ n a, n.site = .removeFile cfg.errorMode ∧ r = (if n.heard a 1 = 0 then .interrupted else .ok, skip) ∧
        m' = m ++ [⟨.unlink dir, .ok⟩, ⟨.notify n, a⟩]) (fun _ m => Impossible t m) m := by
  simp only [removeFile, removeOne, Action.wp_bind, wp_setProgress, loop, Action.loop, wp_ask]
  intro result
  by_cases removed : result = .ok
  · subst removed
    rw [if_neg (not_not.mpr rfl)]
    simp only [Action.wp_bind, wp_setProgress]
    apply wp_callProgressWithUrisOften
    intro n a s' sent
    have named : record (record m ⟨.unlink dir, .ok⟩) ⟨.notify n, a⟩ =
        m ++ [(⟨.unlink dir, .ok⟩ : XferEvent U), ⟨.notify n, a⟩] := by simp [record]
    simp only [Action.wp_ite, Action.wp_pure]
    refine ⟨fun cancelled => Or.inr ⟨n, a, sent.site, ?_, named⟩, fun going => Or.inr ⟨n, a, sent.site, ?_, named⟩⟩
    · rw [if_pos cancelled]
    · rw [if_neg going]
  · have off : Impossible t (record m (⟨.unlink dir, result⟩ : XferEvent U)) := by
      rw [Impossible, foldlM_record happen, treeStep_unlink taken solid, if_neg removed]
    refine Action.wp_mono (wp_impossible off) (fun r _ _ off => ?_) fun _ _ off => off
    cases r with
    | again skip => exact Action.wp_mono (wp_impossible off) (fun _ _ _ off => Or.inl off) fun _ _ off => off
    | finish r => exact Or.inl off

/-- How `create_directory` ends on a name that is taken by something else than a directory. -/
inductive DirectoryRun (dir : U) (t : Tree U) (mode : OverwriteMode) :
    VfsResult × Bool × Option Handle → Trace U → Prop where
  | unique : DirectoryRun dir t mode (.fileExists, false, none) [⟨.makeDirectory dir, .fileExists⟩]
  | kept {r : VfsResult × Bool × Option Handle} {m : Trace U} : ¬ Chosen mode m →
      (∀ e ∈ m, ¬ Unlinks dir e) → DirectoryRun dir t mode r m
  | lost {r : VfsResult × Bool × Option Handle} {m : Trace U} : Chosen mode m →
      (∀ e ∈ m, ¬ Retries e) → (∀ handle, r ≠ (.ok, false, some handle)) → DirectoryRun dir t mode r m
  | made {handle : Handle} {m : Trace U} {last : Tree U} : (∃ e ∈ m, Retries e) →
      m.foldlM treeStep t = some last → last dir = some { type := .directory } →
      DirectoryRun dir t mode (.ok, false, some handle) m

theorem DirectoryRun.replaced_iff {r : VfsResult × Bool × Option Handle} (ends : DirectoryRun dir t mode r m)
    (happen : m.foldlM treeStep t = some after) :
    Replaces mode dir m ((∃ handle, r = (.ok, false, some handle)) ∧ after dir = some { type := .directory }) ↔
      ¬ Chosen mode m ∨ ∃ e ∈ m, Retries e := by
  cases ends with
  | unique => simp [Replaces, Unlinks, Retries]
  | kept other alone =>
    refine ⟨fun _ => Or.inl other, fun _ => ⟨fun chosen => absurd chosen other, ?_⟩⟩
    rintro ⟨e, member, unlinks⟩
    exact absurd unlinks (alone e member)
  | lost chosen unretried failed =>
    constructor
    · rintro ⟨replaced, -⟩
      obtain ⟨⟨handle, same⟩, -⟩ := replaced chosen
      exact absurd same (failed handle)
    · rintro (other | ⟨e, member, retries⟩)
      · exact absurd chosen other
      · exact absurd retries (unretried e member)
  | made retried happen' made =>
    cases happen'.symm.trans happen
    exact ⟨fun _ => Or.inr retried, fun _ => ⟨fun _ => ⟨⟨_, rfl⟩, made⟩, fun _ => ⟨⟨_, rfl⟩, made⟩⟩⟩

theorem removal_happens (taken : t dir = some entry) (solid : entry.type ≠ .directory)
    (same : info.type = entry.type) (known : ReplaceAsked mode asked) (n : Notice) (a : Answer) :
    (removal dir info asked n a).foldlM treeStep t = some (t.put dir none) := by
  have fromInfo : ∀ more : Trace U, (⟨.makeDirectory dir, .fileExists⟩ ::
      ⟨.getFileInfo dir {}, (.ok, info)⟩ :: more).foldlM treeStep t = more.foldlM treeStep t := by
    intro more
    simp only [List.foldlM_cons, treeStep_directory_taken taken, treeStep_info taken, same, and_self, if_true,
      Option.bind_eq_bind, Option.bind_some]
  rcases known with ⟨-, rfl⟩ | ⟨-, n', a', -, -, rfl⟩
  · rw [removal, List.cons_append, List.cons_append, fromInfo]
    simp [treeStep_unlink taken solid, treeStep_notify]
  · rw [removal, List.cons_append, List.cons_append, fromInfo]
    simp [treeStep_unlink taken solid, treeStep_notify]

/-- How the name conflict is resolved. -/
def ConflictEnds (cfg : Config U) (dir : U) (t : Tree U) (mode : OverwriteMode) (r : Option (VfsResult × Bool))
    (m : Trace U) : Prop :=
  (r = none ∨ r = some (.ok, false)) ∧ ¬ Chosen mode m ∧ (∀ e ∈ m, ¬ Unlinks dir e) ∨
    ∃ info asked n a, (t dir).map Entry.type = some info.type ∧ ReplaceAsked mode asked ∧ n.site = .removeFile cfg.errorMode ∧
      r = some (if n.heard a 1 = 0 then .interrupted else .ok, false) ∧ m = removal dir info asked n a

/-- A name conflict with something that is not a directory. -/
theorem wp_resolveExisting_taken (taken : t dir = some entry) (solid : entry.type ≠ .directory) :
    wp record (resolveExisting cfg (fuel + 1) dir false) s
      (fun r _ m => Impossible t m ∨ ConflictEnds cfg dir t s.overwriteMode r m) (fun _ m => Impossible t m)
      [⟨.makeDirectory dir, .fileExists⟩] := by
  have made : [(⟨.makeDirectory dir, .fileExists⟩ : XferEvent U)].foldlM treeStep t = some t := by
    simp [treeStep_directory_taken taken]
  simp only [resolveExisting, Action.wp_bind, wp_ask]
  rintro ⟨result, info⟩
  by_cases found : result = .ok ∧ info.type = entry.type
  · obtain ⟨rfl, same⟩ := found
    have happen : (record [⟨.makeDirectory dir, .fileExists⟩] (⟨.getFileInfo dir {}, (.ok, info)⟩ : XferEvent U)).foldlM
        treeStep t = some t := by
      rw [foldlM_record made, treeStep_info taken, if_pos ⟨rfl, same⟩]
    have other : info.type ≠ .directory := same ▸ solid
    -- what is asked about the conflict, and the removal behind it
    have removes : ∀ {s' : State} {asked : Trace U}, ReplaceAsked s.overwriteMode asked →
        (([⟨.makeDirectory dir, .fileExists⟩, ⟨.getFileInfo dir {}, (.ok, info)⟩] : Trace U) ++ asked).foldlM
          treeStep t = some t →
        wp record (removeFile cfg (fuel + 1) dir false) s' (fun r _ m => Impossible t m ∨
          ConflictEnds cfg dir t s.overwriteMode (some r) m) (fun _ m => Impossible t m)
          ([⟨.makeDirectory dir, .fileExists⟩, ⟨.getFileInfo dir {}, (.ok, info)⟩] ++ asked) := by
      intro s' asked known happen
      refine Action.wp_mono (wp_removeFile_taken happen taken solid) ?_ fun _ _ off => off
      rintro r _ m (off | ⟨n, a, site, rfl, rfl⟩)
      · exact Or.inl off
      · exact Or.inr (Or.inr ⟨info, asked, n, a, by rw [taken, same]; rfl, known, site, rfl, by simp [removal]⟩)
    rw [if_neg (by simp [other]), Action.wp_bind]
    apply wp_handleOverwrite_answered
    · intro unasked
      cases mode : s.overwriteMode with
      | query => exact absurd mode unasked
      | abort =>
        simp only [Overwritten.fixed, Bool.false_eq_true, if_false, Action.wp_pure]
        exact Or.inr (Or.inl ⟨Or.inr rfl, by simp [Chosen], by simp [record, Unlinks]⟩)
      | skip =>
        simp only [Overwritten.fixed, if_true, Action.wp_pure]
        exact Or.inr (Or.inl ⟨Or.inl rfl, by simp [Chosen], by simp [record, Unlinks]⟩)
      | replace =>
        simp only [Overwritten.fixed, Bool.false_eq_true, if_false, if_true, Action.wp_bind, Action.wp_pure]
        rw [mode] at removes
        have known : ReplaceAsked .replace ([] : Trace U) := Or.inl ⟨rfl, rfl⟩
        exact removes known happen
    · intro mode n a s' site _
      by_cases replacing : Replacing (n.heard a errorActionAbort)
      · rw [answered_replacing replacing]
        simp only [Bool.false_eq_true, if_false, if_true, Action.wp_bind, Action.wp_pure]
        have known : ReplaceAsked s.overwriteMode [(⟨.notify n, a⟩ : XferEvent U)] :=
          Or.inr ⟨mode, n, a, site, replacing, rfl⟩
        exact removes known (foldlM_record happen _)
      · obtain ⟨kept, -⟩ := @answered_other _ .fileExists replacing
        have other : ¬ Chosen s.overwriteMode (record (record [⟨.makeDirectory dir, .fileExists⟩]
            (⟨.getFileInfo dir {}, (.ok, info)⟩ : XferEvent U)) ⟨.notify n, a⟩) := by
          simp [Chosen, mode, record, ChoosesReplace, site, replacing]
        have alone : ∀ e ∈ record (record [⟨.makeDirectory dir, .fileExists⟩]
            (⟨.getFileInfo dir {}, (.ok, info)⟩ : XferEvent U)) ⟨.notify n, a⟩, ¬ Unlinks dir e := by
          simp [record, Unlinks]
        simp only [Action.wp_ite, Action.wp_pure, kept, Bool.false_eq_true]
        refine ⟨fun _ => Or.inr (Or.inl ⟨Or.inl rfl, other, alone⟩), fun shown => ⟨False.elim, fun _ => ?_⟩⟩
        refine Or.inr (Or.inl ⟨Or.inr ?_, other, alone⟩)
        rw [Bool.eq_false_iff.mpr shown]
  · have off : Impossible t (record [⟨.makeDirectory dir, .fileExists⟩]
        (⟨.getFileInfo dir {}, (result, info)⟩ : XferEvent U)) := by
      rw [Impossible, foldlM_record made, treeStep_info taken, if_neg found]
    exact wp_off off

/-- How a round of `create_directory` ends. -/
def DirectoryRound (dir : U) (t : Tree U) (mode : OverwriteMode) :
    Step Bool (VfsResult × Bool × Option Handle) → Trace U → Prop
  | .again skip, m => skip = false ∧ (∃ e ∈ m, Retries e) ∧ m.foldlM treeStep t = some (t.put dir none)
  | .finish r, m => DirectoryRun dir t mode r m

/-- Where the removal has been cancelled the callback is asked, and otherwise nothing is there to be opened. -/
theorem wp_openCreated_removed (taken : t dir = some entry) (solid : entry.type ≠ .directory)
    (same : info.type = entry.type) (known : ReplaceAsked mode asked) (site : n.site = .removeFile cfg.errorMode) :
    wp record (openCreated cfg dir (if n.heard a 1 = 0 then .interrupted else .ok) false) s
      (fun r _ m => Impossible t m ∨ DirectoryRound dir t mode r m) (fun _ m => Impossible t m)
      (removal dir info asked n a) := by
  have happen := removal_happens taken solid same known n a
  have lost : ∀ {r : VfsResult × Bool × Option Handle} {more : Trace U}, (∀ e ∈ more, ChoosesReplace e) →
      (∀ e ∈ more, ¬ Retries e) → (∀ handle, r ≠ (.ok, false, some handle)) →
        DirectoryRun dir t mode r (removal dir info asked n a ++ more) :=
    fun choosing calm failed => .lost (removal_chosen known site choosing) (removal_unretried known site calm) failed
  by_cases cancelled : n.heard a 1 = 0
  · rw [if_pos cancelled, openCreated, if_neg nofun, Action.wp_bind]
    apply wp_handleError_answered
    · intro _
      simp only [Bool.false_eq_true, if_false, Action.wp_pure]
      have ends := @lost (.interrupted, false, none) [] (by simp) (by simp) (by simp)
      rw [List.append_nil] at ends
      exact Or.inr ends
    · intro _ n' a' s' site' _ _ _
      have choosing : ∀ e ∈ [(⟨.notify n', a'⟩ : XferEvent U)], ChoosesReplace e := by
        simp [ChoosesReplace, site']
      by_cases retry : n'.heard a' errorActionAbort = errorActionRetry
      · simp only [Handled.answered, if_pos retry, Bool.false_eq_true, if_false, if_true, Action.wp_pure]
        refine Or.inr ⟨rfl, ⟨⟨.notify n', a'⟩, by simp [record], site', retry⟩, ?_⟩
        rw [foldlM_record happen]
        rfl
      · have calm : ∀ e ∈ [(⟨.notify n', a'⟩ : XferEvent U)], ¬ Retries e := by
          simp [Retries, retry]
        have unretried : (Handled.answered (n'.heard a' errorActionAbort) .interrupted).retry = false := by
          unfold Handled.answered
          rw [if_neg retry]
          split
          · rfl
          · split <;> rfl
        rw [unretried]
        simp only [Action.wp_ite, Action.wp_pure, Bool.false_eq_true]
        refine ⟨fun _ => Or.inr (lost choosing calm (by simp)), fun _ => ⟨False.elim, fun _ => Or.inr (lost choosing calm (by simp))⟩⟩
  · rw [if_neg cancelled, openCreated, if_pos rfl, Action.wp_bind, wp_ask]
    rintro ⟨opened, handle⟩
    by_cases missing : opened = .ok
    · refine Or.inl ?_
      rw [Impossible, foldlM_record happen, treeStep_open_free (put_same t dir none), if_neg (not_not.mpr missing)]
    · have ends := @lost (opened, false, if opened = .ok then some handle else none)
        [⟨.openDirectory dir {}, (opened, handle)⟩] (by simp [ChoosesReplace]) (by simp [Retries]) (by simp [missing])
      exact Or.inr ends

/-- A round of `create_directory`. -/
def createRound (cfg : Config U) (fuel : Nat) (dir : U) (skip : Bool) :
    XferM U (Step Bool (VfsResult × Bool × Option Handle)) := do
  let result ← ask (.makeDirectory dir)
  if result = .fileExists then
    if cfg.options.useUniqueNames then return .finish (result, skip, none)
    else
      match ← resolveExisting cfg fuel dir skip with
      | none => return .finish (.ok, true, none)
      | some (result, skip) => openCreated cfg dir result skip
  else openCreated cfg dir result skip

omit [DecidableEq U] in
theorem createDirectory_eq (cfg : Config U) (fuel : Nat) (dir : U) :
    createDirectory cfg fuel dir = loop (createRound cfg fuel dir) fuel false := rfl

/-- On a free name the directory is made and opened. -/
theorem wp_directory_free {between : Tree U} (happen : m.foldlM treeStep t = some between)
    (free : between dir = none) (mode : OverwriteMode) (retried : ∃ e ∈ m, Retries e) :
    wp record (createRound cfg fuel dir false) s
      (fun r _ m => Impossible t m ∨ ∃ a, r = .finish a ∧ DirectoryRun dir t mode a m) (fun _ m => Impossible t m) m := by
  simp only [createRound, Action.wp_bind, wp_ask]
  intro result
  by_cases made : result = .ok
  · subst made
    rw [if_neg (VfsResult.noConfusion : VfsResult.ok ≠ .fileExists), openCreated, if_pos rfl, Action.wp_bind, wp_ask]
    rintro ⟨opened, handle⟩
    have happen' : (record m (⟨.makeDirectory dir, .ok⟩ : XferEvent U)).foldlM treeStep t =
        some (between.put dir (some { type := .directory })) := by
      rw [foldlM_record happen, treeStep_directory_free free, if_pos rfl]
    by_cases missing : opened = .ok
    · subst missing
      have last : (record (record m (⟨.makeDirectory dir, .ok⟩ : XferEvent U))
          ⟨.openDirectory dir {}, (.ok, handle)⟩).foldlM treeStep t = some (between.put dir (some { type := .directory })) := by
        rw [foldlM_record happen', treeStep_open_directory (put_same between dir _), if_pos rfl]
      obtain ⟨e, member, retries⟩ := retried
      exact Or.inr ⟨_, rfl, .made ⟨e, by simp [record, member], retries⟩ last (put_same between dir _)⟩
    · refine Or.inl ?_
      rw [Impossible, foldlM_record happen', treeStep_open_directory (put_same between dir _), if_neg missing]
  · have off : Impossible t (record m (⟨.makeDirectory dir, result⟩ : XferEvent U)) := by
      rw [Impossible, foldlM_record happen, treeStep_directory_free free, if_neg made]
    exact wp_off off

theorem wp_createDirectory (taken : t dir = some entry) (solid : entry.type ≠ .directory) {fuel : Nat} :
    wp record (createDirectory cfg (fuel + 2) dir) s
      (fun r _ m => Impossible t m ∨ DirectoryRun dir t s.overwriteMode r m) (fun _ m => Impossible t m) [] := by
  have first : wp record (createRound cfg (fuel + 2) dir false) s
      (fun r _ m => Impossible t m ∨ DirectoryRound dir t s.overwriteMode r m) (fun _ m => Impossible t m) [] := by
    simp only [createRound, Action.wp_bind, wp_ask]
    intro result
    by_cases exists_ : result = .fileExists
    · subst exists_
      rw [if_pos rfl, Action.wp_ite]
      refine ⟨fun _ => Or.inr .unique, fun _ => ?_⟩
      rw [Action.wp_bind]
      refine Action.wp_mono (wp_resolveExisting_taken taken solid) ?_ fun _ _ off => off
      rintro r s' m (off | ⟨ends, other, alone⟩ | ⟨info, asked, n, a, same, known, site, rfl, rfl⟩)
      · cases r <;> exact wp_off off
      · rcases ends with rfl | rfl
        · exact Or.inr (.kept other alone)
        · -- what is there is opened all the same
          simp only [openCreated, if_true, Action.wp_bind, wp_ask, Action.wp_pure]
          refine fun r => Or.inr (.kept (not_chosen_append other _) fun e member => ?_)
          rcases List.mem_append.mp member with early | last
          · exact alone e early
          · rw [List.mem_singleton.mp last]
            exact id
      · rw [taken, Option.map_some, Option.some.injEq] at same
        exact wp_openCreated_removed taken solid same.symm known site
    · have off : Impossible t (record [] (⟨.makeDirectory dir, result⟩ : XferEvent U)) := by
        simp [record, Impossible, treeStep_directory_taken taken, exists_]
      exact wp_off off
  rw [createDirectory_eq, loop, Action.loop, Action.wp_bind]
  refine Action.wp_mono first ?_ fun _ _ off => off
  rintro r s' m (off | round)
  · cases r with
    | finish r => exact Or.inl off
    | again skip => exact wp_off off
  · cases r with
    | finish r => exact Or.inr round
    | again skip =>
      obtain ⟨rfl, retried, happen⟩ := round
      dsimp only
      rw [Action.loop, Action.wp_bind]
      refine Action.wp_mono (wp_directory_free happen (put_same t dir none) s.overwriteMode retried) ?_ fun _ _ off => off
      rintro r s'' m (off | ⟨r, rfl, ends⟩)
      · cases r with
        | finish r => exact Or.inl off
        | again skip => exact wp_off off
      · exact Or.inr ends

end Directory

section Results

variable [DecidableEq U]

/-- Of the runs of both functions on a name that is taken by something else than a directory: the link
replaces it unless the mode is `REPLACE` from the start or the callback cancels when the link has been
made, and the directory only where its removal is cancelled and then retried. -/
theorem replaces_iff (cfg : Config U) (fuel : Nat) (s : State) (target : U) (t after : Tree U) (entry : Entry)
    (taken : t target = some entry) (solid : entry.type ≠ .directory) (trace : Trace U)
    (happen : trace.foldlM treeStep t = some after) :
    (∀ source linkName out, Runs (copySymlink cfg (fuel + 2) source target linkName s) trace out →
      (Replaces s.overwriteMode target trace
          ((∃ s', out = .returned ((.ok, false), s')) ∧ after target = some ⟨.symbolicLink, linkName⟩) ↔
        s.overwriteMode ≠ .replace ∧ ∀ e ∈ trace, ¬ CancelsLink e)) ∧
    ∀ out, Runs (createDirectory cfg (fuel + 2) target s) trace out →
      (Replaces s.overwriteMode target trace
          ((∃ handle s', out = .returned ((.ok, false, some handle), s')) ∧ after target = some { type := .directory }) ↔
        ¬ Chosen s.overwriteMode trace ∨ ∃ e ∈ trace, Retries e) := by
  have possible : ¬ Impossible t trace := by
    intro off
    rw [off] at happen
    cases happen
  constructor
  · intro source linkName out run
    have seen := Prog.wp_runs record run (@wp_copySymlink _ _ cfg t s target entry taken solid fuel source linkName)
    rw [foldl_record, List.nil_append] at seen
    cases out with
    | stopped reason => exact absurd seen possible
    | returned value =>
      obtain ⟨r, s'⟩ := value
      rw [← (Or.resolve_left seen possible).replaced_iff solid taken happen]
      simp [Prod.ext_iff]
  · intro out run
    have seen := Prog.wp_runs record run (@wp_createDirectory _ _ cfg t s target entry taken solid fuel)
    rw [foldl_record, List.nil_append] at seen
    cases out with
    | stopped reason => exact absurd seen possible
    | returned value =>
      obtain ⟨r, s'⟩ := value
      rw [← (Or.resolve_left seen possible).replaced_iff happen]
      simp [Prod.ext_iff]

/-- A tree that does all it is asked. The callback has conflicts replaced. -/
def treeReply (t : Tree Bytes) : (op : Op Bytes) → op.Reply × Tree Bytes
  | .createSymbolicLink u reference =>
    if t u = none then (.ok, t.put u (some ⟨.symbolicLink, reference⟩)) else (.fileExists, t)
  | .makeDirectory u => if t u = none then (.ok, t.put u (some { type := .directory })) else (.fileExists, t)
  | .unlink u => (.ok, t.put u none)
  | .openDirectory u _ => ((if t u = none then .notFound else .ok, 1), t)
  | op => (calmReply op, t)

def occupied : Tree Bytes := fun u => if u = ascii "/l" then some { type := .regular } else none

def linkRun (mode : OverwriteMode) : Trace Bytes × Outcome Stop ((VfsResult × Bool) × State) :=
  Prog.exec treeReply (copySymlink (plainConfig {}) 2 (ascii "/a") (ascii "/l") (ascii "b") { overwriteMode := mode }) occupied

def directoryRun (mode : OverwriteMode) :
    Trace Bytes × Outcome Stop ((VfsResult × Bool × Option Handle) × State) :=
  Prog.exec treeReply (createDirectory (plainConfig {}) 2 (ascii "/l") { overwriteMode := mode }) occupied

theorem replaces_iff_asked : ∃ after, (linkRun .query).1.foldlM treeStep occupied = some after ∧
    (Replaces .query (ascii "/l") (linkRun .query).1
        ((∃ s', (linkRun .query).2 = .returned ((.ok, false), s')) ∧
          after (ascii "/l") = some ⟨.symbolicLink, ascii "b"⟩) ↔
      OverwriteMode.query ≠ .replace ∧ ∀ e ∈ (linkRun .query).1, ¬ CancelsLink e) :=
  ⟨_, rfl, (replaces_iff (plainConfig {}) 0 { overwriteMode := .query } (ascii "/l") occupied _ { type := .regular }
    (by decide) nofun (linkRun .query).1 rfl).1 (ascii "/a") (ascii "b") _ (Prog.exec_runs treeReply _ occupied)⟩

/-- In the mode `REPLACE` both functions remove the file, return an error and leave nothing. -/
theorem replace_leaves_nothing :
    (∃ trace out after, Runs (copySymlink (plainConfig {}) 2 (ascii "/a") (ascii "/l") (ascii "b")
          { overwriteMode := .replace }) trace out ∧ trace.foldlM treeStep occupied = some after ∧
        after (ascii "/l") = none ∧ (∃ s', out = .returned ((.fileExists, false), s')) ∧
        ¬ Replaces .replace (ascii "/l") trace ((∃ s', out = .returned ((.ok, false), s')) ∧
          after (ascii "/l") = some ⟨.symbolicLink, ascii "b"⟩)) ∧
      ∃ trace out after, Runs (createDirectory (plainConfig {}) 2 (ascii "/l") { overwriteMode := .replace }) trace out ∧
        trace.foldlM treeStep occupied = some after ∧ after (ascii "/l") = none ∧
        (∃ s', out = .returned ((.notFound, false, none), s')) ∧
        ¬ Replaces .replace (ascii "/l") trace ((∃ handle s', out = .returned ((.ok, false, some handle), s')) ∧
          after (ascii "/l") = some { type := .directory }) := by
  constructor
  · refine ⟨(linkRun .replace).1, (linkRun .replace).2, _, Prog.exec_runs treeReply _ occupied, rfl, rfl, ⟨_, rfl⟩, ?_⟩
    rintro ⟨replaced, -⟩
    exact nomatch (replaced (Or.inl rfl)).2
  · refine ⟨(directoryRun .replace).1, (directoryRun .replace).2, _, Prog.exec_runs treeReply _ occupied, rfl, rfl,
      ⟨_, rfl⟩, ?_⟩
    rintro ⟨replaced, -⟩
    exact nomatch (replaced (Or.inl rfl)).2

end Results

end GnomeVfs.Xfer
