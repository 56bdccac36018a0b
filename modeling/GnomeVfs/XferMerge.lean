import Mathlib.Algebra.Ring.Nat
import GnomeVfs.XferTransfer
import GnomeVfs.XferVisit

/- The recount behind the name conflicts: the sizes of the merged items are taken off the totals, and the
sizes of what is below them are added. -/
namespace GnomeVfs.Xfer

open Interaction

variable {U : Type} {cfg : Config U}

/-- What `count_each_file_size_one` adds to `bytes_total`. -/
def countedSize (info : FileInfo) : Nat :=
  match info.type with
  | .regular => info.size.toNat + 1024
  | .directory => 1024
  | _ => 0

def totalSize (infos : List FileInfo) : Nat := (infos.map countedSize).sum

/-- What a walk along a list has counted so far, told from the replies: the items of the list, and what is
in their directories. `own` is set where `gnome_vfs_directory_visit_uri` is about to look at the item again. -/
structure Tally (U : Type) where
  own : Bool := false
  items : List (U × FileInfo) := []
  inside : List FileInfo := []

def Tally.see (recursive : Bool) (t : Tally U) : XferEvent U → Tally U
  | ⟨.getFileInfo uri _, (result, info)⟩ =>
    if t.own then { t with own := false }
    else if result = .ok then
      { t with own := recursive && info.type = .directory, items := t.items ++ [(uri, info)] }
    else t
  | ⟨.readNext _, (result, info)⟩ =>
    if result = .ok && !isDots info.name then { t with inside := t.inside ++ [info] } else t
  | _ => t

/-- What the walk with these events has counted. -/
def tally (recursive : Bool) (trace : Trace U) : Tally U := trace.foldl (Tally.see recursive) {}

def Tally.size (t : Tally U) : Nat := totalSize (t.items.map Prod.snd) + totalSize t.inside

variable {info : FileInfo} {result : VfsResult} {t' : Tally U} {uri : U}

section Counting

theorem totalSize_append (infos more : List FileInfo) : totalSize (infos ++ more) = totalSize infos + totalSize more := by
  simp [totalSize]

variable {recursive : Bool} {s : State} {t : Tally U}

/-- The callback may set the duplicate name and the times of the next updates, not the totals. -/
theorem wp_callProgressOften_total {site : Site} {phase : Phase} {Q : Int → State → Tally U → Prop}
    (holds : ∀ answer s', s'.progress.bytesTotal = s.progress.bytesTotal → Q answer s' t) :
    Action.wp (Tally.see recursive) (callProgressOften cfg site phase) s Q (fun _ _ => True) t := by
  simp only [callProgressOften, Action.wp_bind, Action.wp_get]
  intro a
  apply holds
  dsimp only
  split <;> split <;> rfl

theorem add_countedSize (p : ProgressInfo) (info : FileInfo) :
    (p.count info).bytesTotal = p.bytesTotal + UInt64.ofNat (countedSize info) := by
  unfold ProgressInfo.count countedSize
  cases info.type <;> simp [UInt64.ofNat_add, defaultSizeOverhead]

/-- Behind the callback `bytes_total` has grown by the size, unless the walk is told to stop. -/
theorem wp_countEachFileSizeOne {relPath : Bytes} {willLoop : Bool}
    {Q : Bool × Bool × Unit → State → Tally U → Prop} (stops : ∀ recurse s, Q (false, recurse, ()) s t)
    (counts : ∀ s', s'.progress.bytesTotal = s.progress.bytesTotal + UInt64.ofNat (countedSize info) →
      Q (true, true, ()) s' t):
    Action.wp (Tally.see recursive) (countEachFileSizeOne cfg relPath info willLoop ()) s Q (fun _ _ => True) t := by
  rw [countEachFileSizeOne, Action.wp_bind, Action.wp_get, Action.wp_bind]
  apply wp_callProgressOften_total
  intro answer s' same
  rw [Action.wp_ite]
  refine ⟨fun _ => stops _ _, fun _ => ?_⟩
  simp only [Action.wp_bind, progressSetSourceTarget, wp_setProgress]
  rw [Action.wp_ite]
  refine ⟨fun _ => stops _ _, fun _ => counts _ ?_⟩
  rw [← same]
  exact add_countedSize _ info

/-- The totals have grown by what is new inside the directories. -/
def Grown (s : State) (t : Tally U) (result : VfsResult) (s' : State) (t' : Tally U) : Prop :=
  ∃ new, t' = { t with inside := t.inside ++ new } ∧
    (result ≠ .interrupted → s'.progress.bytesTotal = s.progress.bytesTotal + UInt64.ofNat (totalSize new))

theorem grown_nil : Grown s t result s t := ⟨[], by simp, fun _ => by simp [totalSize]⟩

theorem Grown.trans {s' s'' : State} {t' t'' : Tally U} (front : Grown s t .ok s' t')
    (back : Grown s' t' result s'' t'') : Grown s t result s'' t'' := by
  obtain ⟨new, rfl, total⟩ := front
  obtain ⟨more, rfl, total'⟩ := back
  refine ⟨new ++ more, by simp, fun goesOn => ?_⟩
  rw [total' goesOn, total nofun, totalSize_append, UInt64.ofNat_add, UInt64.add_assoc]

theorem Grown.closed {s' : State} (grown : Grown s t result s' t') :
    Grown s t (eofToOk result) s' t' := by
  obtain ⟨new, same, total⟩ := grown
  refine ⟨new, same, fun goesOn => total ?_⟩
  rintro rfl
  exact goesOn rfl

theorem grown_entry {s' : State} {info : FileInfo} (named : isDots info.name = false) {handle : Handle}
    (total : s'.progress.bytesTotal = s.progress.bytesTotal + UInt64.ofNat (countedSize info)) :
    Grown s t .ok s' (t.see recursive ⟨.readNext handle, (.ok, info)⟩) := by
  refine ⟨[info], by simp [Tally.see, named], fun _ => ?_⟩
  rw [total]
  simp [totalSize]

variable {visitOptions : VisitOptions} {infoOptions : InfoOptions}

theorem wp_visitEntry_grown {visit : U → Bytes → List (UInt64 × UInt64) → Unit → XferM U (VfsResult × Unit)}
    (visits : ∀ uri above ancestors s t, Action.wp (Tally.see recursive) (visit uri above ancestors ()) s
    (fun r s' t' => Grown s t r.1 s' t') (fun _ _ => True) t)
    (ignores : visitOptions.ignoreRecurseError = false) {above : Bytes} {ancestors : List (UInt64 × UInt64)}
    {handle : Handle}:
    Action.wp (Tally.see recursive)
      (visitEntry cfg visitOptions (countEachFileSizeOne cfg) visit uri above ancestors handle ()) s
      (fun r s' t' => match r with
        | .again _ => Grown s t .ok s' t'
        | .finish r => Grown s t r.1 s' t') (fun _ _ => True) t := by
  rw [visitEntry, Action.wp_bind, wp_ask]
  rintro ⟨read, info⟩
  rw [Action.wp_ite]
  refine ⟨fun failed => ?_, fun passed => ?_⟩
  · have unseen : t.see recursive ⟨.readNext handle, (read, info)⟩ = t := by simp [Tally.see, failed]
    rw [unseen]
    exact grown_nil
  obtain rfl : read = .ok := not_not.mp passed
  rw [Action.wp_ite]
  refine ⟨fun dots => ?_, fun named => ?_⟩
  · have unseen : t.see recursive ⟨.readNext handle, (.ok, info)⟩ = t := by simp [Tally.see, dots]
    rw [unseen]
    exact grown_nil
  · rw [Action.wp_bind]
    apply wp_countEachFileSizeOne
    · intro recurse s'
      refine ⟨[info], by simp [Tally.see, named], fun goesOn => absurd rfl goesOn⟩
    · intro s' total
      have entry := @grown_entry _ recursive s t s' info (by simpa using named) handle total
      rw [Action.wp_ite]
      refine ⟨fun stop => absurd stop Bool.false_ne_true, fun _ => ?_⟩
      rw [Action.wp_ite]
      refine ⟨fun _ => ?_, fun _ => entry⟩
      rw [Action.wp_bind]
      refine Action.wp_mono (visits _ _ _ _ _) ?_ fun _ _ => id
      rintro ⟨result, _⟩ s'' t'' below
      rw [Action.wp_ite]
      refine ⟨fun _ => entry.trans below, fun goesOn => ?_⟩
      obtain rfl : result = .ok := by simpa [ignores] using goesOn
      exact entry.trans below

theorem wp_visitDirectory_grown (ignores : visitOptions.ignoreRecurseError = false) :
    ∀ (fuel : Nat) (uri : U) (above : Bytes) (ancestors : List (UInt64 × UInt64)) (s : State) (t : Tally U),
      Action.wp (Tally.see recursive)
        (visitDirectory cfg infoOptions visitOptions (countEachFileSizeOne cfg) fuel uri above ancestors ()) s
        (fun r s' t' => Grown s t r.1 s' t') (fun _ _ => True) t
  | 0, _, _, _, _, _ => trivial
  | fuel + 1, uri, above, ancestors, s, t => by
    rw [visitDirectory, Action.wp_bind, wp_ask]
    rintro ⟨opened, handle⟩
    rw [Action.wp_ite]
    refine ⟨fun _ => grown_nil, fun _ => ?_⟩
    rw [Action.wp_bind]
    apply Action.wp_loop (fun _ s' t' => Grown s t .ok s' t')
    · intro _ s' t' soFar
      refine Action.wp_mono (wp_visitEntry_grown (wp_visitDirectory_grown ignores fuel) ignores)
        (fun r s'' t'' after => ?_) fun _ _ => id
      cases r with
      | again _ => exact soFar.trans after
      | finish r => exact fun _ => (soFar.trans after).closed
    · exact fun _ _ _ _ => trivial
    · exact grown_nil

theorem wp_directoryVisitUri_grown (ignores : visitOptions.ignoreRecurseError = false) {fuel : Nat}
    (own : t.own = true) :
    Action.wp (Tally.see recursive)
      (directoryVisitUri cfg infoOptions visitOptions (countEachFileSizeOne cfg) fuel uri ()) s
      (fun r s' t' => Grown s { t with own := false } r.1 s' t') (fun _ _ => True) t := by
  rw [directoryVisitUri, Action.wp_bind, wp_ask]
  rintro ⟨found, info⟩
  have seen : t.see recursive ⟨.getFileInfo uri infoOptions, (found, info)⟩ = { t with own := false } := by
    simp [Tally.see, own]
  rw [seen, Action.wp_ite]
  refine ⟨fun _ => grown_nil, fun _ => ?_⟩
  rw [Action.wp_ite]
  exact ⟨fun _ => grown_nil, fun _ => wp_visitDirectory_grown ignores _ _ _ _ _ _⟩

/-- The walk has counted these items, and what it has added is their size with what is inside of them. -/
structure CountedTo (recursive : Bool) (s : State) (counted : List U) (s' : State) (t : Tally U) : Prop where
  own : t.own = false
  alone : recursive = false → t.inside = []
  items : t.items.map Prod.fst = counted
  total : s'.progress.bytesTotal = s.progress.bytesTotal + UInt64.ofNat t.size

variable {s' : State} {counted : List U}

theorem countedTo_nil : CountedTo recursive s [] s ({} : Tally U) :=
  ⟨rfl, fun _ => rfl, rfl, by simp [Tally.size, totalSize]⟩

theorem CountedTo.item {s₁ s₂ : State} (before : CountedTo recursive s counted s' t)
    (one : s₁.progress.bytesTotal = s'.progress.bytesTotal + UInt64.ofNat (countedSize info))
    (grown : Grown s₁ { t with items := t.items ++ [(uri, info)] } result s₂ t')
    (alone : recursive = false → t'.inside = t.inside) (goesOn : result ≠ .interrupted) :
    CountedTo recursive s (counted ++ [uri]) s₂ t' := by
  obtain ⟨new, rfl, total⟩ := grown
  refine ⟨before.own, fun flat => (alone flat).trans (before.alone flat), by simp [before.items], ?_⟩
  have size : Tally.size { t with items := t.items ++ [(uri, info)], inside := t.inside ++ new } =
      t.size + countedSize info + totalSize new := by
    simp only [Tally.size, List.map_append, totalSize_append]
    simp [totalSize]
    omega
  rw [size, total goesOn, one, before.total]
  simp [UInt64.ofNat_add, UInt64.add_assoc]

theorem wp_visitList_counted (ignores : visitOptions.ignoreRecurseError = false) {fuel : Nat} {uris : List U} :
    Action.wp (Tally.see recursive)
      (visitList cfg infoOptions visitOptions (countEachFileSizeOne cfg) fuel recursive uris ()) s
      (fun r s' t' => r.1 ≠ .interrupted → ∃ counted rest, uris = counted ++ rest ∧ CountedTo recursive s counted s' t')
      (fun _ _ => True) {} := by
  refine Action.wp_each (fun rest x s' t' => x.1 = .ok ∧ ∃ counted, uris = counted ++ rest ∧ CountedTo recursive s counted s' t')
    ?_ ?_ uris _ ⟨rfl, [], rfl, countedTo_nil⟩
  · rintro uri rest ⟨_, _⟩ s' t ⟨-, counted, split, before⟩
    rw [Action.wp_bind, wp_ask]
    rintro ⟨found, info⟩
    rw [Action.wp_ite]
    refine ⟨fun failed _ => ?_, fun passed => ?_⟩
    · have unseen : t.see recursive ⟨.getFileInfo uri infoOptions, (found, info)⟩ = t := by
        simp [Tally.see, before.own, failed]
      rw [unseen]
      exact ⟨counted, uri :: rest, split, before⟩
    obtain rfl : found = .ok := not_not.mp passed
    have seen : t.see recursive ⟨.getFileInfo uri infoOptions, (.ok, info)⟩ =
        { t with own := recursive && info.type = .directory, items := t.items ++ [(uri, info)] } := by
      simp [Tally.see, before.own]
    have onward : uris = counted ++ [uri] ++ rest := by rw [split, List.append_assoc]; rfl
    rw [seen, Action.wp_bind]
    apply wp_countEachFileSizeOne
    · exact fun _ _ goesOn => absurd rfl goesOn
    · intro s₁ one
      rw [Action.wp_ite]
      refine ⟨nofun, fun _ => ?_⟩
      rw [Action.wp_ite]
      refine ⟨fun enters => ?_, fun stays => ?_⟩
      · rw [Action.wp_bind]
        refine Action.wp_mono (wp_directoryVisitUri_grown ignores enters) ?_ fun _ _ => id
        rintro ⟨result, _⟩ s₂ t' grown
        rw [← before.own] at grown
        have alone : recursive = false → t'.inside = t.inside := by
          rintro rfl
          exact Bool.noConfusion enters
        rw [Action.wp_ite]
        refine ⟨fun _ goesOn => ?_, fun ok => ?_⟩
        · exact ⟨counted ++ [uri], rest, onward, before.item one grown alone goesOn⟩
        · obtain rfl : result = .ok := not_not.mp ok
          exact ⟨rfl, counted ++ [uri], onward, before.item one grown alone nofun⟩
      · rw [Bool.not_eq_true] at stays
        rw [stays, ← before.own]
        have grown : Grown s₁ { t with items := t.items ++ [(uri, info)] } .ok s₁ { t with items := t.items ++ [(uri, info)] } :=
          grown_nil
        exact ⟨rfl, counted ++ [uri], onward, before.item one grown (fun _ => rfl) nofun⟩
  · rintro ⟨result, _⟩ s' t ⟨-, counted, split, done⟩ -
    exact ⟨counted, [], split, done⟩

theorem wp_listAddItemsAndSize {fuel : Nat} {uris : List U} :
    Action.wp (Tally.see recursive) (listAddItemsAndSize cfg fuel uris recursive) s
      (fun r s' t' => r ≠ .interrupted → ∃ counted rest, uris = counted ++ rest ∧ CountedTo recursive s counted s' t')
      (fun _ _ => True) {} := by
  rw [listAddItemsAndSize, Action.wp_bind]
  exact Action.wp_mono (wp_visitList_counted rfl) (fun _ _ _ => id) fun _ _ => id

end Counting

section Difference

variable {recursive : Bool} {s s' : State} {trace : Trace U} {fuel : Nat} {uris : List U}

theorem listAddItemsAndSize_counted
    (run : Runs (listAddItemsAndSize cfg fuel uris recursive s) trace (.returned (result, s')))
    (goesOn : result ≠ .interrupted) :
    ∃ counted rest, uris = counted ++ rest ∧ CountedTo recursive s counted s' (tally recursive trace) :=
  Prog.wp_runs (Tally.see recursive) run wp_listAddItemsAndSize goesOn

/-- The items of a tally are replies of the file system. -/
theorem mem_tally (member : (uri, info) ∈ (tally recursive trace).items) :
    ∃ options, (⟨.getFileInfo uri options, (.ok, info)⟩ : XferEvent U) ∈ trace := by
  have start : ∀ {trace : Trace U} {t : Tally U}, (uri, info) ∈ (trace.foldl (Tally.see recursive) t).items →
      (uri, info) ∈ t.items ∨ ∃ options, (⟨.getFileInfo uri options, (.ok, info)⟩ : XferEvent U) ∈ trace := by
    intro trace
    induction trace with
    | nil => exact fun member => Or.inl member
    | cons e rest ih =>
      intro t member
      rcases ih member with seen | ⟨options, later⟩
      · obtain ⟨op, reply⟩ := e
        cases op with
        | getFileInfo u options =>
          obtain ⟨result, found⟩ := reply
          by_cases own : t.own = true
          · exact Or.inl (by simpa [Tally.see, own] using seen)
          · by_cases ok : result = .ok
            · subst ok
              have added : (t.see recursive ⟨.getFileInfo u options, (.ok, found)⟩).items = t.items ++ [(u, found)] := by
                simp [Tally.see, own]
              rw [added] at seen
              rcases List.mem_append.mp seen with old | new
              · exact Or.inl old
              · obtain ⟨rfl, rfl⟩ := Prod.mk.inj (List.mem_singleton.mp new)
                exact Or.inr ⟨options, List.mem_cons_self⟩
            · exact Or.inl (by simpa [Tally.see, own, ok] using seen)
        | readNext handle =>
          refine Or.inl ?_
          simp only [Tally.see] at seen
          split at seen <;> exact seen
        | _ => exact Or.inl seen
      · exact Or.inr ⟨options, List.mem_cons_of_mem _ later⟩
  exact (start member).resolve_left nofun

/-- The total with the sign turned, and another added, is the difference unless that is below zero. -/
theorem negated_add_eq_sub_iff {taken added : Nat} (fits : added < 2 ^ 63) :
    ((-UInt64.ofNat taken + UInt64.ofNat added).toNat : Int) = added - taken ↔ taken ≤ added := by
  rw [UInt64.toNat_add, UInt64.toNat_neg, UInt64.toNat_ofNat', UInt64.toNat_ofNat']
  simp only [UInt64.size]
  omega

/-- Of two walks along a list the first has counted no more than the second has with this much besides,
if this is as much as the items that only the first has reached. -/
theorem sum_le_iff_of_prefixes {first second rest rest' : List Nat} (same : first ++ rest = second ++ rest') (besides : Nat) :
    first.sum ≤ second.sum + besides ↔ (first.drop second.length).sum ≤ besides := by
  rcases List.append_eq_append_iff.mp same with ⟨more, rfl, rfl⟩ | ⟨more, rfl, rfl⟩
  · have none : first.drop (first ++ more).length = [] := by simp
    rw [none]
    simp
    omega
  · simp

variable {targets : List U}

/-- The totals with the sign turned. -/
def negated (s : State) : State :=
  { s with progress := { s.progress with bytesTotal := -s.progress.bytesTotal, filesTotal := -s.progress.filesTotal } }

/-- The two walks of a recount that is not interrupted, and the total behind them. -/
def Recounts (cfg : Config U) (fuel : Nat) (uris : List U) (s : State) (first second : Trace U)
    (total : UInt64) : Prop :=
  ∃ r₁ s₁ r₂ s₂, Runs (listAddItemsAndSize cfg fuel uris false s) first (.returned (r₁, s₁)) ∧ r₁ ≠ .interrupted ∧
    Runs (listAddItemsAndSize cfg fuel uris true (negated s₁)) second (.returned (r₂, s₂)) ∧ r₂ ≠ .interrupted ∧
      total = s₂.progress.bytesTotal

/-- Behind the walks the total is compared with the free space. -/
def Compares (r : VfsResult) (total : UInt64) (rest : Trace U) : Prop :=
  ∃ dir free freeBytes, rest = [⟨.volumeFreeSpace dir, (free, freeBytes)⟩] ∧
    (r = .noSpace ↔ free = .ok ∧ total > freeBytes)

theorem ignoreErrors_eq_ok_iff : ignoreErrors result = .ok ↔ result ≠ .interrupted := by
  unfold ignoreErrors
  split
  · exact ⟨nofun, fun other => absurd ‹_› other⟩
  · exact ⟨fun _ => ‹_›, fun _ => rfl⟩

theorem wp_recountMerged : Action.wp record (recountMerged cfg fuel uris targets) s
    (fun r s' m => r ≠ .interrupted → ∃ first second rest, m = first ++ second ++ rest ∧
      Recounts cfg fuel uris s first second s'.progress.bytesTotal ∧ Compares r s'.progress.bytesTotal rest)
    (fun _ _ => True) [] := by
  rw [recountMerged, Action.wp_bind]
  refine Action.wp_mono Action.wp_runs ?_ fun _ _ => id
  rintro r₁ s₁ first ⟨_, rfl, run₁⟩
  rw [Action.wp_bind, wp_setProgress, Action.wp_ite]
  refine ⟨fun _ goesOn => absurd rfl goesOn, fun ignored₁ => ?_⟩
  rw [Action.wp_bind]
  refine Action.wp_mono Action.wp_runs ?_ fun _ _ => id
  rintro r₂ s₂ _ ⟨second, rfl, run₂⟩
  rw [Action.wp_ite]
  refine ⟨fun _ goesOn => absurd rfl goesOn, fun ignored₂ => ?_⟩
  have walks : Recounts cfg fuel uris s first second s₂.progress.bytesTotal :=
    ⟨r₁, s₁, r₂, s₂, run₁, ignoreErrors_eq_ok_iff.mp (not_not.mp ignored₁), run₂,
      ignoreErrors_eq_ok_iff.mp (not_not.mp ignored₂), rfl⟩
  rw [Action.wp_bind]
  cases targets with
  | nil => trivial
  | cons target rest =>
    rw [firstTargetDir, Action.wp_pure, Action.wp_bind, wp_ask]
    rintro ⟨free, freeBytes⟩
    rw [Action.wp_bind, Action.wp_get, Action.wp_ite]
    refine ⟨fun full => ?_, fun room => ?_⟩
    · rw [Action.wp_bind, wp_progressSetSourceTargetUris]
      intro _
      refine ⟨first, second, _, rfl, walks, _, free, freeBytes, rfl, fun _ => ?_, fun _ => rfl⟩
      simpa using full
    · intro _
      refine ⟨first, second, _, rfl, walks, _, free, freeBytes, rfl, nofun, fun full => absurd ?_ room⟩
      simpa using full

/-- When the recount is not interrupted and what its second walk has counted fits, the total compared with the
free space is the size that the second walk has counted less the size that the first has, exactly where the items
that only the first has reached are no larger than what the second has counted inside of its directories. -/
theorem recountMerged_exact_iff (cfg : Config U) (fuel : Nat) (uris targets : List U) (sizeOf : U → Nat) (r : VfsResult)
    (s s' : State) (trace : Trace U) (zero : s.progress.bytesTotal = 0)
    (stable : ∀ uri options info, (⟨.getFileInfo uri options, (.ok, info)⟩ : XferEvent U) ∈ trace →
      countedSize info = sizeOf uri)
    (run : Runs (recountMerged cfg fuel uris targets s) trace (.returned (r, s'))) (goesOn : r ≠ .interrupted):
    ∃ first second rest, trace = first ++ second ++ rest ∧ Recounts cfg fuel uris s first second s'.progress.bytesTotal ∧
      Compares r s'.progress.bytesTotal rest ∧ ((tally true second).size < 2 ^ 63 →
        ((s'.progress.bytesTotal.toNat : Int) = (tally true second).size - (tally false first).size ↔
          totalSize (((tally false first).items.drop (tally true second).items.length).map Prod.snd) ≤
            totalSize (tally true second).inside)) := by
  obtain ⟨first, second, rest, rfl, recounts, compares⟩ := Action.wp_trace run wp_recountMerged goesOn
  refine ⟨first, second, rest, rfl, recounts, compares, fun fits => ?_⟩
  obtain ⟨r₁, s₁, r₂, s₂, run₁, goesOn₁, run₂, goesOn₂, total⟩ := recounts
  obtain ⟨counted₁, rest₁, split₁, walk₁⟩ := listAddItemsAndSize_counted run₁ goesOn₁
  obtain ⟨counted₂, rest₂, split₂, walk₂⟩ := listAddItemsAndSize_counted run₂ goesOn₂
  -- both walks have seen each item with the same size
  have sizes : ∀ {recursive : Bool} {part : Trace U}, (∀ e ∈ part, e ∈ first ++ second ++ rest) →
      (tally recursive part).items.map (fun x => countedSize x.2) =
        ((tally recursive part).items.map Prod.fst).map sizeOf := by
    intro recursive part inside
    rw [List.map_map]
    apply List.map_congr_left
    rintro ⟨uri, info⟩ member
    obtain ⟨options, seen⟩ := mem_tally member
    exact stable uri options info (inside _ seen)
  have sizes₁ : (tally false first).items.map (fun x => countedSize x.2) = counted₁.map sizeOf := by
    rw [sizes (fun e member => by simp [member]), walk₁.items]
  have sizes₂ : (tally true second).items.map (fun x => countedSize x.2) = counted₂.map sizeOf := by
    rw [sizes (fun e member => by simp [member]), walk₂.items]
  have value : s'.progress.bytesTotal = -UInt64.ofNat (tally false first).size + UInt64.ofNat (tally true second).size := by
    rw [total, walk₂.total, negated, walk₁.total, zero, UInt64.zero_add]
  rw [value, negated_add_eq_sub_iff fits, Tally.size, Tally.size, walk₁.alone rfl]
  have same : counted₁.map sizeOf ++ rest₁.map sizeOf = counted₂.map sizeOf ++ rest₂.map sizeOf := by
    rw [← List.map_append, ← List.map_append, ← split₁, ← split₂]
  have reached := sum_le_iff_of_prefixes same (totalSize (tally true second).inside)
  rw [← sizes₁, ← sizes₂, List.length_map, ← List.map_drop] at reached
  simpa [totalSize, Function.comp_def] using reached

/-- Two directories of a megabyte's disk that may be looked at, but not be opened. -/
def unreadableReply : Unit → (op : Op Bytes) → op.Reply × Unit
  | _, .getFileInfo u _ => ((.ok, { name := u, type := .directory }), ())
  | _, .openDirectory _ _ => ((.accessDenied, 0), ())
  | _, .volumeFreeSpace _ => ((.ok, 1000000), ())
  | _, op => (calmReply op, ())

def unreadableUris : List Bytes := [ascii "/a", ascii "/b"]

def unreadableConfig : Config Bytes := plainConfig { removeSource := true }

/-- The walks from the totals at zero, and from those of the first walk with the sign turned. -/
def unreadableWalk (recursive : Bool) (s : State) : Trace Bytes × Outcome Stop (VfsResult × State) :=
  Prog.exec unreadableReply (listAddItemsAndSize unreadableConfig 4 unreadableUris recursive s) ()

def flatTotals : State :=
  { progress := { sourceName := some (ascii "/b"), filesTotal := 2, bytesTotal := 2048 }
    nextUpdate := 500000
    overwriteMode := .abort }

def deepTotals : State :=
  { progress := { sourceName := some (ascii "/a"), filesTotal := -1, bytesTotal := -1024 }
    nextUpdate := 500000
    overwriteMode := .abort }

def unreadableTrace : Trace Bytes :=
  (unreadableWalk false { overwriteMode := .abort }).1 ++ (unreadableWalk true (negated flatTotals)).1 ++
    [⟨.volumeFreeSpace (ascii "/t"), (.ok, 1000000)⟩]

theorem unreadable_first : Runs (listAddItemsAndSize unreadableConfig 4 unreadableUris false { overwriteMode := .abort })
    (unreadableWalk false { overwriteMode := .abort }).1 (.returned (.ok, flatTotals)) := by
  have ended : (unreadableWalk false { overwriteMode := .abort }).2 = .returned (.ok, flatTotals) := by decide +kernel
  exact ended ▸ Prog.exec_runs unreadableReply _ _

theorem unreadable_second : Runs (listAddItemsAndSize unreadableConfig 4 unreadableUris true (negated flatTotals))
    (unreadableWalk true (negated flatTotals)).1 (.returned (.accessDenied, deepTotals)) := by
  have ended : (unreadableWalk true (negated flatTotals)).2 = .returned (.accessDenied, deepTotals) := by decide +kernel
  exact ended ▸ Prog.exec_runs unreadableReply _ _

theorem unreadable_sizes : (tally false (unreadableWalk false { overwriteMode := .abort }).1).size = 2048 ∧
    (tally true (unreadableWalk true (negated flatTotals)).1).size = 1024 := by decide +kernel

theorem runs_setProgress_bind {α : Type} {f : ProgressInfo → ProgressInfo} {g : Unit → XferM U α}
    {out : Outcome Stop (α × State)} (run : Runs (g () { s with progress := f s.progress }) trace out) :
    Runs ((setProgress f >>= g) s) trace out := run

theorem unreadable_recount : ∃ s', Runs (recountMerged unreadableConfig 4 unreadableUris [ascii "/t/a", ascii "/t/b"]
    { overwriteMode := .abort }) unreadableTrace (.returned (.noSpace, s')) ∧ s'.progress.bytesTotal = -1024 := by
  refine ⟨{ deepTotals with progress := { deepTotals.progress with sourceName := none, targetName := some (ascii "/t") } }, ?_, rfl⟩
  rw [unreadableTrace, List.append_assoc]
  refine Action.runs_bind unreadable_first ?_
  refine runs_setProgress_bind ?_
  rw [if_neg (by decide)]
  refine Action.runs_bind unreadable_second ?_
  rw [if_neg (by decide)]
  exact runs_ask_bind.mpr ⟨(.ok, 1000000), [], rfl, .done _⟩

def sizedAs (size : Nat) : XferEvent U → Bool
  | ⟨.getFileInfo _ _, (_, info)⟩ => countedSize info = size
  | _ => true

theorem unreadable_stable : ∀ uri options info, (⟨.getFileInfo uri options, (.ok, info)⟩ : XferEvent Bytes) ∈ unreadableTrace →
    countedSize info = 1024 := by
  have sized : ∀ e ∈ unreadableTrace, sizedAs 1024 e = true := by decide +kernel
  exact fun _ _ _ member => of_decide_eq_true (sized _ member)

theorem recountMerged_exact_iff_unreadable : ∃ first second rest, unreadableTrace = first ++ second ++ rest ∧
    ((tally true second).size < 2 ^ 63 →
      (((-1024 : UInt64).toNat : Int) = (tally true second).size - (tally false first).size ↔
        totalSize (((tally false first).items.drop (tally true second).items.length).map Prod.snd) ≤
          totalSize (tally true second).inside)) := by
  obtain ⟨s', run, total⟩ := unreadable_recount
  obtain ⟨first, second, rest, split, -, -, exact_iff⟩ := recountMerged_exact_iff unreadableConfig 4 unreadableUris
    [ascii "/t/a", ascii "/t/b"] (fun _ => 1024) .noSpace _ s' _ rfl unreadable_stable run nofun
  rw [total] at exact_iff
  exact ⟨first, second, rest, split, exact_iff⟩

/-- The second walk does not get past the first directory: the total wraps around, and the disk is said to be full. -/
theorem recountMerged_wraps : ∃ trace s' first second rest,
    Runs (recountMerged unreadableConfig 4 unreadableUris [ascii "/t/a", ascii "/t/b"] { overwriteMode := .abort }) trace
      (.returned (.noSpace, s')) ∧ trace = first ++ second ++ rest ∧
      Recounts unreadableConfig 4 unreadableUris { overwriteMode := .abort } first second s'.progress.bytesTotal ∧
      (tally true second).size < 2 ^ 63 ∧
      ¬ (s'.progress.bytesTotal.toNat : Int) = (tally true second).size - (tally false first).size := by
  obtain ⟨s', run, total⟩ := unreadable_recount
  refine ⟨_, s', _, _, _, run, rfl, ?_, ?_, ?_⟩
  · exact ⟨.ok, _, .accessDenied, _, unreadable_first, nofun, unreadable_second, nofun, total⟩
  · rw [unreadable_sizes.2]
    decide
  · rw [unreadable_sizes.1, unreadable_sizes.2, total]
    decide

end Difference

end GnomeVfs.Xfer
