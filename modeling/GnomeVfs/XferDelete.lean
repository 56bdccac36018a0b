import GnomeVfs.XferRemove

/- What the two loops that delete a list of items do when one of them cannot be removed. -/
namespace GnomeVfs.Xfer

open Interaction
open Interaction.Action (Walked wp)

variable {U : Type} {cfg : Config U} {fuel : Nat}

/-- The result that a round of `gnome_vfs_xfer_delete_items_common` ends with. -/
def roundResult : Step VfsResult VfsResult → VfsResult
  | .again r => r
  | .finish r => r

/-- The item is given up because the request for its information failed. -/
def InfoFails (uri : U) (trace : Trace U) : Prop :=
  ∃ result info rest, trace = ⟨.getFileInfo uri {}, (result, info)⟩ :: rest ∧ result ≠ VfsResult.ok

theorem not_infoFails {uri : U} {info : FileInfo} {trace : Trace U}
    (begins : [⟨.getFileInfo uri {}, (.ok, info)⟩] <+: trace) : ¬ InfoFails uri trace := by
  rintro ⟨result, other, rest, rfl, failed⟩
  obtain ⟨more, same⟩ := begins
  cases same
  exact failed rfl

theorem deleteItem_finish_iff {uri : U} {s s' : State} {trace : Trace U}
    {round : Step VfsResult VfsResult}
    (run : Runs (deleteItem cfg fuel uri s) trace (.returned (round, s'))) :
    InfoFails uri trace ↔ round = .finish (roundResult round) := by
  refine Action.wp_trace (Q := fun round _ trace => InfoFails uri trace ↔ round = .finish (roundResult round))
    (H := fun _ _ => True) run ?_
  unfold deleteItem
  simp only [Action.wp_bind, wp_ask]
  rintro ⟨result, info⟩
  by_cases found : result = .ok
  · -- behind a successful request the loop always goes on
    subst found
    simp only [ne_eq, not_true_eq_false, if_false, Action.wp_bind, wp_progressSetSourceTargetUris]
    refine Action.wp_mono Action.wp_record (fun r s m longer => ?_) fun _ _ => id
    simp [not_infoFails longer, roundResult]
  · rw [if_pos found]
    simpa [roundResult, record] using ⟨result, info, [], rfl, found⟩

/-- Behind a failed removal `gnome_vfs_xfer_delete_items_common` goes on with the next item. -/
theorem deleteItemsCommon_stops_iff {before after : List U} {uri : U} {s s₁ s₂ : State} {r : VfsResult}
    {front middle back : Trace U} {round : Step VfsResult VfsResult}
    {out : Outcome Stop (VfsResult × State)}
    (reached : Walked (fun uri _ => deleteItem cfg fuel uri) before .ok s front r s₁)
    (removed : Runs (deleteItem cfg fuel uri s₁) middle (.returned (round, s₂)))
    (run : Runs (deleteItemsCommon cfg fuel (before ++ uri :: after) s) (front ++ (middle ++ back)) out) :
    back = [] ∧ out = .returned (roundResult round, s₂) ↔ after = [] ∨ InfoFails uri middle := by
  have next := Action.each_cons (Action.each_walked reached run) removed
  have finish := deleteItem_finish_iff removed
  cases round with
  | finish r => exact iff_of_true next (Or.inr (finish.mpr rfl))
  | again r =>
    have found : ¬ InfoFails uri middle := fun fails => nomatch finish.mp fails
    rw [or_iff_left found]
    cases after with
    | nil =>
      cases next
      simp [roundResult]
    | cons item rest =>
      refine iff_of_false ?_ (List.cons_ne_nil _ _)
      rintro ⟨rfl, -⟩
      cases next

/-- So does the walk along the flat list of `non_recursive_empty_directory`. -/
theorem removeAllListed_stops_iff {before after : List U} {uri : U} {s s₁ s₂ : State}
    {x r result : VfsResult × Bool} {front middle back : Trace U}
    {out : Outcome Stop ((VfsResult × Bool) × State)}
    (reached : Walked (removeListedRound cfg fuel) before x s front r s₁)
    (removed : Runs (removeListed cfg fuel uri r.2 s₁) middle (.returned (result, s₂)))
    (run : Runs (removeAllListed cfg fuel (before ++ uri :: after) x s) (front ++ (middle ++ back)) out) :
    back = [] ∧ out = .returned (result, s₂) ↔ after = [] := by
  have round : Runs (removeListedRound cfg fuel uri r s₁) middle (.returned (.again result, s₂)) := by
    rw [← List.append_nil middle]
    exact Action.runs_bind removed (.done _)
  have next := Action.each_cons (Action.each_walked reached run) round
  cases after with
  | nil =>
    cases next
    simp
  | cons item rest =>
    refine iff_of_false ?_ (List.cons_ne_nil _ _)
    rintro ⟨rfl, -⟩
    cases next

/-- A removal that fails ends the work exactly when no item is left, or when the request
for the item's information is what failed in `gnome_vfs_xfer_delete_items_common`. -/
theorem failed_removal_stops_iff (cfg : Config U) (fuel : Nat) (before after : List U) (uri : U) :
    (∀ s s₁ s₂ r front middle back round out,
      Walked (fun uri _ => deleteItem cfg fuel uri) before .ok s front r s₁ →
      Runs (deleteItem cfg fuel uri s₁) middle (.returned (round, s₂)) → roundResult round ≠ .ok →
      Runs (deleteItemsCommon cfg fuel (before ++ uri :: after) s) (front ++ (middle ++ back)) out →
      (back = [] ∧ out = .returned (roundResult round, s₂) ↔ after = [] ∨ InfoFails uri middle)) ∧
    ∀ directory skip s s₀ s₁ s₂ r result visit front middle back out,
      Runs (directoryVisitUri cfg {} { loopCheck := true } (prependOneUriToList cfg directory) fuel
        directory [] s) visit (.returned ((.ok, before ++ uri :: after), s₀)) →
      Walked (removeListedRound cfg fuel) before (.ok, skip) s₀ front r s₁ →
      Runs (removeListed cfg fuel uri r.2 s₁) middle (.returned (result, s₂)) → result.1 ≠ .ok →
      Runs (nonRecursiveEmptyDirectory cfg fuel directory skip s) (visit ++ (front ++ (middle ++ back))) out →
      (back = [] ∧ out = .returned (result, s₂) ↔ after = []) := by
  constructor
  · intro s s₁ s₂ r front middle back round out reached removed _ run
    exact deleteItemsCommon_stops_iff reached removed run
  · intro directory skip s s₀ s₁ s₂ r result visit front middle back out visited reached removed _ run
    unfold nonRecursiveEmptyDirectory at run
    have rest := Action.runs_bind_rest run visited
    exact removeAllListed_stops_iff reached removed rest

/-- A directory `/d` with the files `a` and `b`; the file `locked` cannot be unlinked. The
number counts the entries that have been read. -/
def lockedReply (locked : Bytes) : Nat → (op : Op Bytes) → op.Reply × Nat
  | n, .getFileInfo u _ => ((.ok, { name := u, type := if u = ascii "/d" then .directory else .regular }), n)
  | n, .readNext _ =>
    (if n = 0 then (.ok, { name := ascii "a", type := .regular })
    else if n = 1 then (.ok, { name := ascii "b", type := .regular })
    else (.eof, { name := [], type := .unknown }), n + 1)
  | n, .unlink u => (if u = locked then .accessDenied else .ok, n)
  | n, op => (calmReply op, n)

/-- The first file is refused, the second is deleted all the same, and the result is `OK`. -/
theorem deleteItemsCommon_goes_on : ∃ s₁ s₂ middle back,
    Runs (deleteItem (plainConfig {}) 1 (ascii "/d/a") { overwriteMode := .abort }) middle
      (.returned (.again .accessDenied, s₁)) ∧
    Runs (deleteItemsCommon (plainConfig {}) 1 [ascii "/d/a", ascii "/d/b"] { overwriteMode := .abort })
      (middle ++ back) (.returned (.ok, s₂)) ∧
    ⟨.unlink (ascii "/d/b"), VfsResult.ok⟩ ∈ back :=
  ⟨_, _, _, [⟨.getFileInfo (ascii "/d/b") {}, (.ok, { name := ascii "/d/b", type := .regular })⟩,
      ⟨.unlink (ascii "/d/b"), .ok⟩, ⟨.notify _, _⟩],
    Prog.exec_runs (lockedReply (ascii "/d/a")) _ 0, Prog.exec_runs (lockedReply (ascii "/d/a")) _ 0,
    .tail _ (.head _)⟩

theorem failed_removal_stops_iff_locked :
    (∃ s₁ middle back out,
      Runs (deleteItem (plainConfig {}) 1 (ascii "/d/a") { overwriteMode := .abort }) middle
        (.returned (.again .accessDenied, s₁)) ∧
      Runs (deleteItemsCommon (plainConfig {}) 1 [ascii "/d/a", ascii "/d/b"] { overwriteMode := .abort })
        (middle ++ back) out ∧
      ¬ (back = [] ∧ out = .returned (.accessDenied, s₁))) ∧
    ∃ s₁ visit middle back out,
      Runs (nonRecursiveEmptyDirectory (plainConfig {}) 4 (ascii "/d") false { overwriteMode := .abort })
        (visit ++ (middle ++ back)) out ∧
      ¬ (back = [] ∧ out = .returned ((.accessDenied, false), s₁)) := by
  constructor
  · have first := Prog.exec_runs (lockedReply (ascii "/d/a"))
      (deleteItem (plainConfig {}) 1 (ascii "/d/a") { overwriteMode := .abort }) 0
    have run := Prog.exec_runs (lockedReply (ascii "/d/a"))
      (deleteItemsCommon (plainConfig {}) 1 [ascii "/d/a", ascii "/d/b"] { overwriteMode := .abort }) 0
    have stops := (failed_removal_stops_iff (plainConfig {}) 1 [] [ascii "/d/b"] (ascii "/d/a")).1
      _ _ _ _ _ [_, _] [_, _, _] _ _ (.nil _ _) first nofun run
    refine ⟨_, _, _, _, first, run, fun stopped => ?_⟩
    rcases stops.mp stopped with last | fails
    · cases last
    · exact not_infoFails ⟨_, rfl⟩ fails
  · have visited := Prog.exec_runs (lockedReply (ascii "/d/b"))
      (directoryVisitUri (plainConfig {}) {} { loopCheck := true }
        (prependOneUriToList (plainConfig {}) (ascii "/d")) 4 (ascii "/d") [] { overwriteMode := .abort }) 0
    have run := Prog.exec_runs (lockedReply (ascii "/d/b"))
      (nonRecursiveEmptyDirectory (plainConfig {}) 4 (ascii "/d") false { overwriteMode := .abort }) 0
    have stops := (failed_removal_stops_iff (plainConfig {}) 4 [] [ascii "/d/a"] (ascii "/d/b")).2
      (ascii "/d") false _ _ _ _ _ _ [_, _, _, _, _, _] _ [_, _] [_, _, _] _ visited (.nil _ _)
      (Prog.exec_runs (lockedReply (ascii "/d/b")) _ 3) nofun run
    exact ⟨_, [_, _, _, _, _, _], [_, _], [_, _, _], _, run, fun stopped => nomatch stops.mp stopped⟩

end GnomeVfs.Xfer
