import GnomeVfs.XferTransfer

/- What `handle_name_conflicts` does with the pairs of its two lists. -/
namespace GnomeVfs.Xfer

open Interaction
open Interaction.Action (Shows shows_any shows_pure shows_halt shows_ask shows_of_record Round wp)

variable {U : Type} {cfg : Config U}

variable {result : VfsResult}

section Told

/-- The callback answers a conflict or an error with the choice to skip. -/
def TellsToSkip : XferEvent U → Prop
  | ⟨.notify n, a⟩ => n.site = .handleError ∧ n.heard a errorActionAbort = errorActionSkip ∨
      n.site = .handleOverwrite ∧ (n.heard a errorActionAbort = overwriteActionSkip ∨
        n.heard a errorActionAbort = overwriteActionSkipAll)
  | _ => False

/-- `skip` is set behind the events only where it was before, or where the callback has said so. -/
def Told (skip : Bool) (trace : Trace U) (skip' : Bool) : Prop :=
  skip' = true → skip = true ∨ ∃ e ∈ trace, TellsToSkip e

variable {skip skip' skip'' : Bool} {front back : Trace U}

theorem told_same (trace : Trace U) : Told skip trace skip := Or.inl

theorem told_unset (trace : Trace U) : Told skip trace false := nofun

theorem Told.trans (first : Told skip front skip') (second : Told skip' back skip'') : Told skip (front ++ back) skip'' := by
  intro set
  rcases second set with before | ⟨e, member, tells⟩
  · exact (first before).imp_right fun ⟨e, member, tells⟩ => ⟨e, List.mem_append_left back member, tells⟩
  · exact Or.inr ⟨e, List.mem_append_right front member, tells⟩

theorem Told.after (told : Told skip front skip') (more : Trace U) : Told skip (front ++ more) skip' :=
  told.trans (told_same more)

abbrev anyEvent (_ : XferEvent U) : Prop := True

theorem told_handleError :
    Shows anyEvent (handleError cfg result) (fun h trace => Told false trace h.skip) := by
  apply shows_of_record
  intro s
  apply wp_handleError_answered
  · exact fun _ => told_unset _
  · intro _ n a s' site _ _ _ set
    refine Or.inr ⟨⟨.notify n, a⟩, List.mem_singleton.mpr rfl, Or.inl ⟨site, ?_⟩⟩
    by_contra other
    have unset : (Handled.answered (n.heard a errorActionAbort) result).skip = false := by
      unfold Handled.answered
      split
      · rfl
      · split <;> rfl
    rw [unset] at set
    cases set

theorem told_removeOne {site : Site} {call : XferM U VfsResult} {fuel : Nat} {uri : U} :
    Shows anyEvent (removeOne cfg site call fuel uri skip) (fun r trace => Told skip trace r.2) := by
  apply Shows.bind shows_any
  intro _ front _
  apply (Shows.loop (fun skip' acc => Told skip acc skip') _ fuel skip (told_same [])).mono
  · exact fun r trace told => (told_same front).trans told
  · intro skip' acc told
    apply Shows.bind shows_any
    intro result called _
    apply Shows.ite
    · intro _
      apply Shows.bind told_handleError
      intro h asked handled
      have after : Told skip (acc ++ (called ++ asked)) h.skip := by
        rw [← List.append_assoc]
        intro set
        exact ((told_unset (acc ++ called)).trans handled) set
      apply Shows.ite
      · intro _
        apply shows_pure
        rw [List.append_nil]
        exact after
      · intro _
        apply shows_pure
        rw [List.append_nil]
        exact after
    · intro _
      apply Shows.bind shows_any
      intro _ counted _
      apply Shows.bind shows_any
      intro answer sent _
      apply Shows.ite <;>
        · intro _
          apply shows_pure
          exact told.after _

variable {fuel : Nat} {uri : U}

theorem told_removeFile : Shows anyEvent (removeFile cfg fuel uri skip) (fun r trace => Told skip trace r.2) :=
  told_removeOne

theorem told_removeEmptied : Shows anyEvent (removeEmptied cfg fuel uri skip) (fun r trace => Told skip trace r.2) :=
  told_removeOne

/-- A part that leaves `skip` alone goes in front. -/
theorem Told.behind (told : Told skip back skip') (front : Trace U) : Told skip (front ++ back) skip' :=
  (told_same front).trans told

theorem told_removeListed : Shows anyEvent (removeListed cfg fuel uri skip) (fun r trace => Told skip trace r.2) := by
  apply Shows.bind shows_any
  rintro ⟨result, info⟩ asked _
  apply Shows.bind shows_any
  intro _ named _
  apply Shows.ite
  · intro _
    apply Shows.ite
    · exact fun _ => told_removeEmptied.mono fun _ _ told => (told.behind named).behind asked
    · exact fun _ => told_removeFile.mono fun _ _ told => (told.behind named).behind asked
  · exact fun _ => shows_pure (told_same _)

theorem told_removeAllListed {uris : List U} :
    Shows anyEvent (removeAllListed cfg fuel uris (result, skip)) (fun r trace => Told skip trace r.2) := by
  apply Shows.each (fun x acc => Told skip acc x.2) _ uris (result, skip) (told_same [])
  intro uri x acc told
  apply Shows.bind told_removeListed
  intro r trace removed
  apply shows_pure
  rw [List.append_nil]
  exact told.trans removed

theorem told_nonRecursiveEmptyDirectory :
    Shows anyEvent (nonRecursiveEmptyDirectory cfg fuel uri skip) (fun r trace => Told skip trace r.2) := by
  apply Shows.bind shows_any
  rintro ⟨result, uris⟩ visited _
  apply Shows.ite
  · exact fun _ => told_removeAllListed.mono fun _ _ told => told.behind visited
  · exact fun _ => shows_pure (told_same _)

theorem told_removeDirectoryWith {empty : U → XferM U (VfsResult × Bool)}
    (emptied : ∀ uri, Shows anyEvent (empty uri) (fun r trace => Told false trace r.2)) {recursive : Bool} :
    Shows anyEvent (removeDirectoryWith cfg empty fuel uri recursive skip) (fun r trace => Told skip trace r.2) := by
  have unset : ∀ {skip' : Bool} {trace : Trace U}, Told false trace skip' → Told skip trace skip' := by
    intro skip' trace told set
    exact (told set).imp_left fun unset => absurd unset Bool.false_ne_true
  apply Shows.bind (P := fun r trace => Told skip trace r.2)
  · apply Shows.ite
    · intro _
      apply Shows.bind (emptied uri)
      rintro ⟨result, skip'⟩ front told
      apply Shows.ite
      · exact fun _ => told_nonRecursiveEmptyDirectory.mono fun _ _ rest => (unset told).trans rest
      · exact fun _ => shows_pure ((unset told).after [])
    · exact fun _ => shows_pure (told_same [])
  rintro ⟨result, skip'⟩ front told
  apply Shows.ite
  · exact fun _ => told_removeEmptied.mono fun _ _ rest => told.trans rest
  · exact fun _ => shows_pure (told.after [])

theorem told_openToEmpty : Shows anyEvent (openToEmpty cfg fuel uri) (fun r trace => Told false trace r.2.1) := by
  apply Shows.loop (fun skip acc => Told false acc skip) _ fuel false (told_same [])
  intro skip acc told
  apply Shows.bind shows_any
  rintro ⟨result, handle⟩ opened _
  apply Shows.ite
  · intro _
    apply Shows.bind told_handleError
    intro h asked handled
    have after : Told false (acc ++ (opened ++ (asked ++ []))) h.skip := by
      rw [List.append_nil, ← List.append_assoc]
      exact handled.behind (acc ++ opened)
    apply Shows.ite <;> exact fun _ => shows_pure after
  · exact fun _ => shows_pure (told.after _)

theorem told_emptyEntry {empty : U → XferM U (VfsResult × Bool)}
    (emptied : ∀ uri, Shows anyEvent (empty uri) (fun r trace => Told false trace r.2)) {handle : Handle}
    {acc : Trace U} {before : Bool} (told : Told before acc skip) :
    Shows anyEvent (emptyEntry cfg empty fuel uri handle skip)
      (Round (fun skip acc => Told before acc skip) (fun r trace => Told before trace r.2) acc) := by
  apply Shows.bind shows_any
  rintro ⟨result, info⟩ asked _
  apply Shows.ite
  · exact fun _ => shows_pure (told.after _)
  · intro _
    apply Shows.ite
    · exact fun _ => shows_pure (told.after _)
    · intro _
      apply Shows.bind shows_any
      intro _ named _
      have removed : Shows anyEvent (if info.type = .directory then
          removeDirectoryWith cfg empty fuel (cfg.uris.appendFileName uri info.name) true skip
        else removeFile cfg fuel (cfg.uris.appendFileName uri info.name) skip) (fun r trace => Told skip trace r.2) :=
        Shows.ite (fun _ => told_removeDirectoryWith emptied) fun _ => told_removeFile
      apply Shows.bind removed
      rintro ⟨result, skip'⟩ trace rest
      have after : Told before (acc ++ (asked ++ (named ++ (trace ++ [])))) skip' := by
        rw [List.append_nil]
        exact told.trans ((rest.behind named).behind asked)
      apply Shows.ite <;> exact fun _ => shows_pure after

theorem told_emptyDirectory : ∀ (fuel : Nat) (uri : U),
    Shows anyEvent (emptyDirectory cfg fuel uri) (fun r trace => Told false trace r.2)
  | 0, _ => shows_halt
  | fuel + 1, uri => by
    apply Shows.bind told_openToEmpty
    rintro ⟨result, skip, handle⟩ opened told
    apply Shows.ite
    · exact fun _ => shows_pure (told.after [])
    · intro _
      apply Shows.bind (Shows.loop (fun skip' acc => Told skip acc skip')
        (fun _ _ told => told_emptyEntry (told_emptyDirectory fuel) told) fuel skip (told_same []))
      rintro ⟨result, skip'⟩ emptied rest
      apply Shows.bind shows_any
      intro _ closed _
      exact shows_pure (told.trans (rest.after _))

theorem told_removeDirectory {recursive : Bool} :
    Shows anyEvent (removeDirectory cfg fuel uri recursive skip) (fun r trace => Told skip trace r.2) :=
  told_removeDirectoryWith (told_emptyDirectory fuel)

theorem told_clearTarget {move link : Bool} {source : U} {targetInfo : FileInfo} :
    Shows anyEvent (clearTarget cfg fuel move link source uri targetInfo result skip)
      (fun r trace => Told skip trace r.2.1) := by
  apply Shows.bind shows_any
  intro _ named _
  apply Shows.ite
  · intro _
    apply Shows.bind shows_any
    intro inside asked _
    apply Shows.ite
    · exact fun _ => shows_pure (told_same _)
    · intro _
      apply Shows.bind shows_any
      intro merges looked _
      apply Shows.ite
      · intro _
        apply Shows.ite
        · intro _
          apply Shows.bind shows_any
          exact fun _ _ _ => shows_pure (told_same _)
        · exact fun _ => shows_pure (told_same _)
      · intro _
        apply Shows.bind told_removeDirectory
        rintro ⟨result, skip'⟩ removed told
        exact shows_pure ((((told.after []).behind looked).behind asked).behind named)
  · intro _
    apply Shows.bind told_removeFile
    rintro ⟨result, skip'⟩ removed told
    exact shows_pure ((told.after []).behind named)

end Told

variable {s : State}

section Settled

variable {fuel : Nat} {move link : Bool} {source uri : U}

/-- Why a pair is skipped: it is a copy onto itself, or the mode or the callback says so. -/
def SkipReason (cfg : Config U) (source uri : U) (mode : OverwriteMode) (trace : Trace U) : Prop :=
  cfg.uris.equal uri source = true ∨ mode = .skip ∨ ∃ e ∈ trace, TellsToSkip e

theorem wp_settleConflict :
    wp record (settleConflict cfg fuel move link source uri result) s
      (fun r _ m => r.2.1 = true → SkipReason cfg source uri s.overwriteMode m) (fun _ _ => True) [] := by
  have unset : ∀ {P : Prop}, false = true → P := fun set => absurd set Bool.false_ne_true
  rw [settleConflict, Action.wp_ite]
  refine ⟨fun _ => unset, fun _ => ?_⟩
  rw [Action.wp_bind, wp_ask]
  rintro ⟨found, targetInfo⟩
  simp only [Action.wp_ite, Action.wp_bind, Action.wp_pure, wp_progressSetSourceTargetUris]
  refine ⟨fun _ => unset, fun _ => ⟨fun same _ => Or.inl same, fun _ => ?_⟩⟩
  -- what `clear_target` makes of `skip`
  have clears : ∀ {result : VfsResult} {s' : State} {m : Trace U},
      wp record (clearTarget cfg fuel move link source uri targetInfo result false) s'
        (fun r _ m => r.2.1 = true → SkipReason cfg source uri s.overwriteMode m) (fun _ _ => True) m := by
    intro result s' m
    refine Action.wp_mono told_clearTarget.wp ?_ fun _ _ => id
    rintro r _ _ ⟨trace, rfl, told⟩ set
    obtain ⟨e, member, tells⟩ := (told set).resolve_left Bool.false_ne_true
    exact Or.inr (Or.inr ⟨e, List.mem_append_right m member, tells⟩)
  apply wp_handleOverwrite_answered
  · intro unasked
    cases mode : s.overwriteMode with
    | query => exact absurd mode unasked
    | abort => exact ⟨unset, fun _ => unset⟩
    | replace =>
      rw [mode] at clears
      exact ⟨fun _ => clears, fun unretried => absurd rfl unretried⟩
    | skip => exact ⟨unset, fun _ _ => Or.inr (Or.inl rfl)⟩
  · intro _ n a s' site _
    refine ⟨fun retry => ?_, fun _ set => Or.inr (Or.inr ⟨⟨.notify n, a⟩, by simp [record], Or.inr ⟨site, ?_⟩⟩)⟩
    · have unset : (Overwritten.answered (n.heard a errorActionAbort) result).skip = false := by
        rcases Overwritten.answered_of (n.heard a errorActionAbort) result with same | same | same | same <;>
          rw [same] at retry ⊢
        cases retry
      rw [unset]
      exact clears
    · by_contra other
      have unset : (Overwritten.answered (n.heard a errorActionAbort) result).skip = false := by
        unfold Overwritten.answered
        split
        · rfl
        · split
          · rfl
          · rfl
      rw [unset] at set
      cases set

theorem settleConflict_skip {result result' : VfsResult} {mustCopy : Bool} {s s' : State}
    {trace : Trace U}
    (run : Runs (settleConflict cfg fuel move link source uri result s) trace (.returned ((result', true, mustCopy), s'))) :
    SkipReason cfg source uri s.overwriteMode trace :=
  Action.wp_trace run wp_settleConflict rfl

end Settled

section Sorting

/-- What becomes of a pair. -/
inductive Fate where
  | kept | merged | skipped
  deriving DecidableEq

def fateOf (move skip mustCopy : Bool) : Fate :=
  if skip then .skipped else if move && mustCopy then .merged else .kept

/-- The pairs with this fate, in their order. -/
def select (fate : Fate) (done : List ((U × U) × Fate)) : List (U × U) := (done.filter (·.2 = fate)).map Prod.fst

/-- The two lists hold these pairs, position by position. -/
structure Paired (sources targets : List U) (pairs : List (U × U)) : Prop where
  sources : sources = pairs.map Prod.fst
  targets : targets = pairs.map Prod.snd

/-- The conflicts of these pairs have been settled one after the other. -/
inductive Sorted (cfg : Config U) (fuel : Nat) (move link : Bool) :
    List ((U × U) × Fate) → State → Trace U → State → Prop where
  | nil (s : State) : Sorted cfg fuel move link [] s [] s
  | cons {source uri : U} {skip mustCopy : Bool} {done : List ((U × U) × Fate)} {s s' s'' : State}
      {part more : Trace U} :
      Runs (settleConflict cfg fuel move link source uri .ok s) part (.returned ((.ok, skip, mustCopy), s')) →
      (skip = true → SkipReason cfg source uri s.overwriteMode part) →
      Sorted cfg fuel move link done s' more s'' →
      Sorted cfg fuel move link (((source, uri), fateOf move skip mustCopy) :: done) s (part ++ more) s''

/-- One round of the second loop in `handle_name_conflicts`. -/
def conflictRound (cfg : Config U) (fuel : Nat) (move link : Bool) (pair : U × U) (v : Conflicts U) :
    XferM U (Step (Conflicts U) (Conflicts U)) := do
  let (result, skip, mustCopy) ← settleConflict cfg fuel move link pair.1 pair.2 v.result
  let v := { v with result := result }
  if result ≠ .ok then return .finish v
  else
    let v := { v with restSources := v.restSources.tail, restTargets := v.restTargets.tail }
    if skip then return .again v
    else if move && mustCopy then
      return .again { v with
        mergeSources := pair.1 :: v.mergeSources, mergeTargets := pair.2 :: v.mergeTargets }
    else return .again { v with
      keptSources := v.keptSources ++ [pair.1], keptTargets := v.keptTargets ++ [pair.2] }

theorem handleNameConflicts_eq (cfg : Config U) (fuel : Nat) (sources targets : List U) (move link : Bool) :
    handleNameConflicts cfg fuel sources targets move link = (do
      let count ← countConflicts targets
      if count = 0 then return ⟨.ok, [], [], sources, targets, [], []⟩
      else
        setProgress fun p => { p with duplicateCount := count }
        Action.each (conflictRound cfg fuel move link) (sources.zip targets) ⟨.ok, [], [], sources, targets, [], []⟩) := rfl

variable {fuel : Nat} {move link : Bool} {done : List ((U × U) × Fate)} {rest : List (U × U)}

theorem Sorted.snoc {source uri : U} {skip mustCopy : Bool} {s s' s'' : State} {front part : Trace U}
    (sorted : Sorted cfg fuel move link done s front s')
    (run : Runs (settleConflict cfg fuel move link source uri .ok s') part (.returned ((.ok, skip, mustCopy), s''))) :
    Sorted cfg fuel move link (done ++ [((source, uri), fateOf move skip mustCopy)]) s (front ++ part) s'' := by
  induction sorted with
  | nil s =>
    have alone := Sorted.cons run (fun set => settleConflict_skip (set ▸ run)) (.nil s'')
    rw [List.append_nil] at alone
    exact alone
  | cons first reason _ ih =>
    rw [List.append_assoc]
    exact .cons first reason (ih run)

theorem select_snoc (fate fate' : Fate) (done : List ((U × U) × Fate)) (pair : U × U) :
    select fate (done ++ [(pair, fate')]) = select fate done ++ if fate' = fate then [pair] else [] := by
  by_cases same : fate' = fate <;> simp [select, List.filter_append, same]

/-- The lists while the pairs `done` are settled and `rest` are not. -/
structure Lists (done : List ((U × U) × Fate)) (rest : List (U × U)) (v : Conflicts U) : Prop where
  kept : Paired v.keptSources v.keptTargets (select .kept done)
  merged : Paired v.mergeSources v.mergeTargets (select .merged done).reverse
  left : Paired v.restSources v.restTargets rest

theorem Lists.advance {v : Conflicts U} {source uri : U} (lists : Lists done ((source, uri) :: rest) v) (skip mustCopy : Bool) :
    Lists (done ++ [((source, uri), fateOf move skip mustCopy)]) rest (
      let v := { v with result := .ok, restSources := v.restSources.tail, restTargets := v.restTargets.tail }
      if skip then v
      else if move && mustCopy then
        { v with mergeSources := source :: v.mergeSources, mergeTargets := uri :: v.mergeTargets }
      else { v with keptSources := v.keptSources ++ [source], keptTargets := v.keptTargets ++ [uri] }) := by
  obtain ⟨⟨kept, kept'⟩, ⟨merged, merged'⟩, ⟨left, left'⟩⟩ := lists
  unfold fateOf
  split
  · constructor <;> constructor <;> simp [select_snoc, kept, kept', merged, merged', left, left']
  · split <;> constructor <;> constructor <;> simp [select_snoc, kept, kept', merged, merged', left, left']

/-- Between the rounds. -/
structure Walking (cfg : Config U) (fuel : Nat) (move link : Bool) (pairs : List (U × U)) (start : State)
    (front : Trace U) (rest : List (U × U)) (v : Conflicts U) (s : State) (m : Trace U) : Prop where
  result : v.result = .ok
  sorted : ∃ done part, done.map Prod.fst ++ rest = pairs ∧ m = front ++ part ∧
    Sorted cfg fuel move link done start part s ∧ Lists done rest v

/-- How the walk ends. -/
structure Walk (cfg : Config U) (fuel : Nat) (move link : Bool) (pairs : List (U × U)) (start : State)
    (front : Trace U) (v : Conflicts U) (m : Trace U) : Prop where
  sorted : ∃ done rest part back s, done.map Prod.fst ++ rest = pairs ∧ m = front ++ part ++ back ∧
    Sorted cfg fuel move link done start part s ∧ Lists done rest v ∧ (v.result = .ok → rest = [])

theorem wp_conflictRound {pairs : List (U × U)} {start s : State} {front m : Trace U} {pair : U × U}
    {v : Conflicts U} (walking : Walking cfg fuel move link pairs start front (pair :: rest) v s m) :
    wp record (conflictRound cfg fuel move link pair v) s (fun r s m =>
      match r with
      | .again v => Walking cfg fuel move link pairs start front rest v s m
      | .finish v => Walk cfg fuel move link pairs start front v m) (fun _ _ => True) m := by
  obtain ⟨ok, done, part, split, rfl, sorted, lists⟩ := walking
  obtain ⟨source, uri⟩ := pair
  rw [conflictRound, Action.wp_bind]
  refine Action.wp_mono Action.wp_runs ?_ fun _ _ => id
  rintro ⟨result, skip, mustCopy⟩ s' _ ⟨more, rfl, run⟩
  rw [ok] at run
  rw [Action.wp_ite]
  refine ⟨fun failed => ?_, fun passed => ?_⟩
  · exact ⟨done, (source, uri) :: rest, part, more, s, split, rfl, sorted,
      ⟨lists.kept, lists.merged, lists.left⟩, fun same => absurd same failed⟩
  · obtain rfl : result = .ok := not_not.mp passed
    have next := @Lists.advance _ move done rest v source uri lists skip mustCopy
    have onward : (done ++ [((source, uri), fateOf move skip mustCopy)]).map Prod.fst ++ rest = pairs := by
      rw [← split]
      simp
    have longer := sorted.snoc run
    rw [Action.wp_ite]
    refine ⟨fun set => ?_, fun unset => Action.wp_ite.mpr ⟨fun both => ?_, fun neither => ?_⟩⟩
    · rw [if_pos set] at next
      exact ⟨rfl, _, _, onward, List.append_assoc _ _ _, longer, next⟩
    · rw [if_neg unset, if_pos both] at next
      exact ⟨rfl, _, _, onward, List.append_assoc _ _ _, longer, next⟩
    · rw [if_neg unset, if_neg neither] at next
      exact ⟨rfl, _, _, onward, List.append_assoc _ _ _, longer, next⟩

theorem wp_countConflicts {targets : List U} {m : Trace U} :
    wp record (countConflicts targets) s (fun _ s' _ => s' = s) (fun _ _ => True) m := by
  refine Action.wp_each (fun _ _ s' _ => s' = s) ?_ (fun _ _ _ => id) targets 0 rfl
  intro target rest count s' m same
  simp only [Action.wp_bind, wp_ask, Action.wp_ite, Action.wp_pure]
  exact fun _ => ⟨fun _ => ⟨fun _ => same, fun _ => same⟩, fun _ => same⟩

theorem wp_handleNameConflicts {sources targets : List U} (same : sources.length = targets.length) :
    wp record (handleNameConflicts cfg fuel sources targets move link) s (fun v _ m => ∃ start front,
      start.overwriteMode = s.overwriteMode ∧ Walk cfg fuel move link (sources.zip targets) start front v m ∨
      v.result = .ok ∧ Lists [] (sources.zip targets) v) (fun _ _ => True) [] := by
  have start : Lists [] (sources.zip targets) ⟨.ok, [], [], sources, targets, [], []⟩ :=
    ⟨⟨rfl, rfl⟩, ⟨rfl, rfl⟩, ⟨(List.map_fst_zip (Nat.le_of_eq same)).symm, (List.map_snd_zip (Nat.le_of_eq same.symm)).symm⟩⟩
  rw [handleNameConflicts_eq, Action.wp_bind]
  refine Action.wp_mono wp_countConflicts ?_ fun _ _ => id
  rintro count s m unchanged
  rw [Action.wp_ite]
  refine ⟨fun _ => ⟨s, [], Or.inr ⟨rfl, start⟩⟩, fun _ => ?_⟩
  rw [Action.wp_bind, wp_setProgress]
  let begun : State := { s with progress := { s.progress with duplicateCount := count } }
  have mode : begun.overwriteMode = s.overwriteMode := rfl
  have walked : wp record (Action.each (conflictRound cfg fuel move link) (sources.zip targets)
      ⟨.ok, [], [], sources, targets, [], []⟩) begun
      (fun v _ m' => Walk cfg fuel move link (sources.zip targets) begun m v m') (fun _ _ => True) m := by
    refine Action.wp_each (Walking cfg fuel move link (sources.zip targets) begun m) ?_ ?_ _ _ ?_
    · intro pair rest v s m' walking
      refine Action.wp_mono (wp_conflictRound walking) (fun r _ _ after => ?_) fun _ _ => id
      cases r with
      | again _ => exact after
      | finish _ => exact after
    · rintro v s' _ ⟨ok, done, part, split, rfl, sorted, lists⟩
      exact ⟨done, [], part, [], s', split, (List.append_nil _).symm, sorted, lists, fun _ => rfl⟩
    · exact ⟨rfl, [], [], rfl, (List.append_nil m).symm, .nil begun, start⟩
  refine Action.wp_mono walked (fun v _ _ walk => ⟨begun, m, Or.inl ⟨?_, walk⟩⟩) fun _ _ => id
  rw [mode, unchanged]

/-- Every pair stays with its partner, in one of the remaining lists, the merge lists and the pairs that
are skipped. -/
theorem handleNameConflicts_sorts (cfg : Config U) (fuel : Nat) (sources targets : List U) (move link : Bool)
    (same : sources.length = targets.length) (s s' : State) (v : Conflicts U) (trace : Trace U)
    (run : Runs (handleNameConflicts cfg fuel sources targets move link s) trace (.returned (v, s'))) :
    ∃ done rest, done.map Prod.fst ++ rest = sources.zip targets ∧
      Paired (v.keptSources ++ v.restSources) (v.keptTargets ++ v.restTargets) (select .kept done ++ rest) ∧
      Paired v.mergeSources v.mergeTargets (select .merged done).reverse ∧
      (v.result = .ok → rest = [] ∨ done = []) ∧
      ∃ front part back s₁ s₂, trace = front ++ part ++ back ∧ s₁.overwriteMode = s.overwriteMode ∧
        Sorted cfg fuel move link done s₁ part s₂ := by
  have paired : ∀ {done : List ((U × U) × Fate)} {rest : List (U × U)}, Lists done rest v →
      Paired (v.keptSources ++ v.restSources) (v.keptTargets ++ v.restTargets) (select .kept done ++ rest) := by
    intro done rest lists
    constructor
    · rw [lists.kept.sources, lists.left.sources, List.map_append]
    · rw [lists.kept.targets, lists.left.targets, List.map_append]
  obtain ⟨start, front, ⟨mode, walk⟩ | ⟨-, lists⟩⟩ := Action.wp_trace run (wp_handleNameConflicts same)
  · obtain ⟨done, rest, part, back, s₂, split, rfl, sorted, lists, ended⟩ := walk
    exact ⟨done, rest, split, paired lists, lists.merged, fun ok => Or.inl (ended ok),
      front, part, back, start, s₂, rfl, mode, sorted⟩
  · exact ⟨[], sources.zip targets, rfl, paired lists, lists.merged, fun _ => Or.inr rfl,
      trace, [], [], s, s, by simp, rfl, .nil s⟩

/-- Two of the targets exist. The callback has the first replaced and the second skipped. -/
def sortReply : Nat → (op : Op Bytes) → op.Reply × Nat
  | asked, .getFileInfo u _ =>
    (if u = ascii "/t/c" then (.notFound, { name := [], type := .unknown })
    else (.ok, { name := u, type := if u = ascii "/t/a" ∨ u = ascii "/a" then .directory else .regular }), asked)
  | asked, .notify n =>
    if n.site = .handleOverwrite then (⟨0, if asked = 0 then 1 else 3, 1, n.info.duplicateName⟩, asked + 1)
    else (⟨0, 1, 1, n.info.duplicateName⟩, asked)
  | asked, op => (calmReply op, asked)

def sortConflicts : XferM Bytes (Conflicts Bytes) :=
  handleNameConflicts (plainConfig {}) 4 [ascii "/a", ascii "/b", ascii "/c"] [ascii "/t/a", ascii "/t/b", ascii "/t/c"]
    true false

def sortRun : Trace Bytes × Outcome Stop (Conflicts Bytes × State) :=
  Prog.exec sortReply (sortConflicts { overwriteMode := .query }) 0

theorem sortRun_returned : ∃ s, sortRun.2 =
    .returned (⟨.ok, [ascii "/c"], [ascii "/t/c"], [], [], [ascii "/a"], [ascii "/t/a"]⟩, s) := ⟨_, rfl⟩

theorem handleNameConflicts_sorts_each : ∃ done rest,
    done.map Prod.fst ++ rest = [(ascii "/a", ascii "/t/a"), (ascii "/b", ascii "/t/b"), (ascii "/c", ascii "/t/c")] ∧
      Paired [ascii "/c"] [ascii "/t/c"] (select .kept done ++ rest) ∧
      Paired [ascii "/a"] [ascii "/t/a"] (select .merged done).reverse := by
  have run : Runs (sortConflicts { overwriteMode := .query }) sortRun.1 sortRun.2 := Prog.exec_runs sortReply _ _
  obtain ⟨s', returned⟩ := sortRun_returned
  rw [returned] at run
  obtain ⟨done, rest, split, kept, merged, -⟩ := handleNameConflicts_sorts (plainConfig {}) 4
    [ascii "/a", ascii "/b", ascii "/c"] [ascii "/t/a", ascii "/t/b", ascii "/t/c"] true false rfl _ s' _ _ run
  exact ⟨done, rest, split, kept, merged⟩

end Sorting

end GnomeVfs.Xfer
