import GnomeVfs.Environment
import GnomeVfs.Result

/- The job that loads a directory and notifies its caller of the entries in batches
(`gnome-vfs-job.c`), while another thread may cancel it. A URI and a file information are anything. -/
namespace GnomeVfs.AsyncLoad

open Interaction

variable {U I : Type}

/-- `GnomeVFSNotifyResult` as far as a `load_directory` fills it in. -/
structure NotifyResult (I : Type) where
  result : VfsResult
  list : List I
  entriesRead : Nat
  deriving DecidableEq

inductive Op (U I : Type) where
  | directoryOpen (uri : U)
  | checkCancellation
  | readNext
  | addCallback (notification : NotifyResult I)
  | idleAdd (notification : NotifyResult I)
  | directoryClose

@[reducible] def Op.Reply : Op U I → Type
  | .directoryOpen _ => VfsResult
  | .checkCancellation => Bool
  | .readNext => VfsResult × I
  | .addCallback _ => Bool
  | .idleAdd _ => Unit
  | .directoryClose => VfsResult

inductive Stop where
  | assertion
  | outOfFuel
  deriving DecidableEq

abbrev LoadM (U I : Type) := Action (Op.Reply (U := U) (I := I)) Stop Unit

abbrev ask (op : Op U I) : LoadM U I op.Reply := Action.ask op

/-- `job_oneway_notify`. -/
def jobOnewayNotify (notification : NotifyResult I) : LoadM U I Unit := do
  let added : Bool ← ask (.addCallback notification)
  if added then ask (.idleAdd notification) else pure ()

/-- One round of the loop of `load_directory_details` over `directory_list` and `count`. It ends with
`directory_list`. -/
def loadRound (itemsPerNotification : Nat) (x : List I × Nat) : LoadM U I (Step (List I × Nat) (List I)) := do
  let cancelled : Bool ← ask .checkCancellation
  if cancelled then return .finish []
  else
    let (result, info) ← ask .readNext
    let x := if result = .ok then (info :: x.1, x.2 + 1) else x
    if x.2 = itemsPerNotification ∨ result ≠ .ok then
      jobOnewayNotify ⟨result, x.1.reverse, x.2⟩
      if result ≠ .ok then return .finish [] else return .again ([], 0)
    else return .again x

/-- `load_directory_details`. -/
def loadDirectoryDetails (fuel : Nat) (uri : Option U) (itemsPerNotification : Nat) : LoadM U I Unit := do
  let result ← match uri with
    | none => pure .invalidUri
    | some uri => ask (.directoryOpen uri)
  if result ≠ .ok then jobOnewayNotify ⟨result, [], 0⟩
  else
    let directoryList ← Action.loop .outOfFuel (loadRound itemsPerNotification) fuel ([], 0)
    if directoryList ≠ [] then Action.halt .assertion
    else
      let _ ← ask .directoryClose

/-- The directory, which has these entries left and then this result; what has been read of it and what has
been posted; the cancellation of the context, `job->cancelled`, and whether the job has seen either. -/
structure World (I : Type) where
  left : List I
  atEnd : VfsResult
  read : List I
  posted : List (NotifyResult I)
  cancellation : Bool
  cancelled : Bool
  detected : Bool

namespace World

/-- What another thread may have done in the meantime: `gnome_vfs_async_cancel` cancels the context, and
then sets `job->cancelled`. -/
structure Meanwhile (w w' : World I) : Prop where
  same : w' = { w with cancellation := w'.cancellation, cancelled := w'.cancelled }
  stays : w.cancellation = true → w'.cancellation = true
  set : w.cancelled = true → w'.cancelled = true
  after : w'.cancelled = true → w'.cancellation = true

/-- The reply to a request, after what has happened in the meantime. A directory that cannot be opened has
nothing to read, and a read may notice that it is cancelled. -/
def replies (w : World I) : (op : Op U I) → op.Reply → World I → Prop
  | .directoryOpen _, result, w' => (result = .ok ∨ w.left = [] ∧ result = w.atEnd) ∧ w' = w
  | .checkCancellation, cancelled, w' => cancelled = w.cancellation ∧ w' = { w with detected := w.detected || cancelled }
  | .readNext, reply, w' =>
    (reply.1 = .ok ∧ ∃ rest, w.left = reply.2 :: rest ∧ w' = { w with left := rest, read := w.read ++ [reply.2] }) ∨
    (w.left = [] ∧ reply.1 = w.atEnd ∧ w' = w) ∨
    (w.cancellation = true ∧ reply.1 = .cancelled ∧ w' = w)
  | .addCallback _, added, w' => added = !w.cancelled ∧ w' = { w with detected := w.detected || w.cancelled }
  | .idleAdd notification, _, w' => w' = { w with posted := w.posted ++ [notification] }
  | .directoryClose, _, w' => w' = w

def Serves (w : World I) (op : Op U I) (reply : op.Reply) (w' : World I) : Prop :=
  ∃ w₁, w.Meanwhile w₁ ∧ w₁.replies op reply w'

/-- Nothing is to be posted by a job that has seen that it is cancelled. -/
def Demands (w : World I) : Op U I → Prop
  | .addCallback _ | .idleAdd _ => w.detected = false
  | _ => True

/-- The entries that have been posted. -/
def delivered (w : World I) : List I := (w.posted.map NotifyResult.list).flatten

end World

section Loads

variable {items : Nat} {listing : List I} {atEnd : VfsResult} {x : List I × Nat} {w w' w'' : World I}

theorem World.Meanwhile.trans (first : w.Meanwhile w') (second : w'.Meanwhile w'') : w.Meanwhile w'' := by
  refine ⟨?_, second.stays ∘ first.stays, second.set ∘ first.set, second.after⟩
  rw [second.same, first.same]

theorem World.Meanwhile.before (same : w.Meanwhile w') (goesOn : w'.cancellation = false) : w.cancellation = false := by
  by_contra cancelled
  have after := same.stays (by simpa using cancelled)
  rw [goesOn] at after
  cases after

/-- Full batches have been posted, and `directory_list` is what was read behind them. -/
structure Collected (items : Nat) (listing : List I) (atEnd : VfsResult) (x : List I × Nat) (w : World I) : Prop where
  counted : x.2 = x.1.length
  rest : w.read ++ w.left = listing
  ends : w.atEnd = atEnd
  full : ∀ n ∈ w.posted, n.result = .ok ∧ n.list.length = items ∧ n.entriesRead = n.list.length
  unseen : w.detected = false
  whole : w.delivered ++ x.1.reverse = w.read

/-- A notification was refused. -/
structure Refused (items : Nat) (listing : List I) (w : World I) : Prop where
  full : ∀ n ∈ w.posted, n.result = .ok ∧ n.list.length = items ∧ n.entriesRead = n.list.length
  part : w.delivered <+: listing
  cancelled : w.cancellation = true

/-- What has been posted in the end. -/
structure Loaded (items : Nat) (listing : List I) (atEnd : VfsResult) (w : World I) : Prop where
  counted : ∀ n ∈ w.posted, n.entriesRead = n.list.length
  listed : w.delivered <+: listing
  full : ∀ n ∈ w.posted.dropLast, n.result = .ok ∧ n.list.length = items
  complete : w.cancellation = false → w.delivered = listing ∧
    ∃ front last, w.posted = front ++ [last] ∧ last.result = atEnd ∧ last.list.length < items

theorem Collected.meanwhile (collected : Collected items listing atEnd x w) (same : w.Meanwhile w') :
    Collected items listing atEnd x w' := by
  rw [same.same]
  exact ⟨collected.counted, collected.rest, collected.ends, collected.full, collected.unseen, collected.whole⟩

theorem Refused.meanwhile (refused : Refused items listing w) (same : w.Meanwhile w') : Refused items listing w' := by
  have cancelled := same.stays refused.cancelled
  rw [same.same]
  exact ⟨refused.full, refused.part, cancelled⟩

theorem Loaded.meanwhile (loaded : Loaded items listing atEnd w) (same : w.Meanwhile w') : Loaded items listing atEnd w' := by
  have before := same.before
  rw [same.same]
  exact ⟨loaded.counted, loaded.listed, loaded.full, fun goesOn => loaded.complete (before goesOn)⟩

theorem Collected.refused (collected : Collected items listing atEnd x w) (cancelled : w.cancellation = true) :
    Refused items listing w := by
  refine ⟨collected.full, ?_, cancelled⟩
  rw [← collected.rest, ← collected.whole, List.append_assoc]
  exact List.prefix_append _ _

theorem Refused.detect (refused : Refused items listing w) (detected : Bool) :
    Refused items listing { w with detected := detected } :=
  ⟨refused.full, refused.part, refused.cancelled⟩

/-- A job that is cancelled has posted full batches. -/
theorem Refused.loaded (refused : Refused items listing w) : Loaded items listing atEnd w := by
  refine ⟨fun n member => (refused.full n member).2.2, refused.part, fun n member => ?_, fun never => ?_⟩
  · obtain ⟨fine, length, -⟩ := refused.full n (List.dropLast_subset _ member)
    exact ⟨fine, length⟩
  · rw [refused.cancelled] at never
    cases never

/-- An entry that has been read is put into the batch. -/
theorem Collected.entry {rest : List I} {info : I} (collected : Collected items listing atEnd x w)
    (left : w.left = info :: rest) :
    Collected items listing atEnd (info :: x.1, x.2 + 1) { w with left := rest, read := w.read ++ [info] } := by
  refine ⟨congrArg (· + 1) collected.counted, ?_, collected.ends, collected.full, collected.unseen, ?_⟩
  · have whole := collected.rest
    rw [left] at whole
    simpa using whole
  · rw [List.reverse_cons, ← List.append_assoc]
    exact congrArg (· ++ [info]) collected.whole

theorem delivered_posted (n : NotifyResult I) :
    { w with posted := w.posted ++ [n] }.delivered = w.delivered ++ n.list := by
  simp [World.delivered]

/-- A batch that is full is posted, and the next begins. -/
theorem Collected.posted (collected : Collected items listing atEnd x w) (complete : x.2 = items) :
    Collected items listing atEnd ([], 0) { w with posted := w.posted ++ [⟨.ok, x.1.reverse, x.2⟩] } := by
  refine ⟨rfl, collected.rest, collected.ends, fun n member => ?_, collected.unseen, ?_⟩
  · rcases List.mem_append.mp member with old | new
    · exact collected.full n old
    · rw [List.mem_singleton.mp new]
      refine ⟨rfl, ?_, ?_⟩
      · rw [List.length_reverse, ← collected.counted, complete]
      · rw [List.length_reverse, ← collected.counted]
  · rw [delivered_posted, List.reverse_nil, List.append_nil]
    exact collected.whole

theorem Collected.last {result : VfsResult} (collected : Collected items listing atEnd x w) (short : x.2 < items)
    (ended : w.cancellation = false → w.left = [] ∧ result = atEnd) :
    Loaded items listing atEnd { w with posted := w.posted ++ [⟨result, x.1.reverse, x.2⟩] } := by
  refine ⟨fun n member => ?_, ?_, fun n member => ?_, fun goesOn => ?_⟩
  · rcases List.mem_append.mp member with old | new
    · exact (collected.full n old).2.2
    · rw [List.mem_singleton.mp new, List.length_reverse, ← collected.counted]
  · rw [delivered_posted, collected.whole, ← collected.rest]
    exact List.prefix_append _ _
  · rw [List.dropLast_concat] at member
    obtain ⟨fine, length, -⟩ := collected.full n member
    exact ⟨fine, length⟩
  · obtain ⟨empty, same⟩ := ended goesOn
    refine ⟨?_, _, _, rfl, same, ?_⟩
    · rw [delivered_posted, collected.whole, ← collected.rest, empty, List.append_nil]
    · rw [List.length_reverse, ← collected.counted]
      exact short

section Notify

variable {n : NotifyResult I} {Q : Unit → Unit → World I → Prop} {H : Stop → World I → Prop}

theorem safe_jobOnewayNotify (unseen : w.detected = false)
    (posts : ∀ w', w.Meanwhile w' → Q () () { w' with posted := w'.posted ++ [n] })
    (refuses : ∀ w', w.Meanwhile w' → w'.cancellation = true → Q () () { w' with detected := true }) :
    Action.safe (World.Serves (U := U)) World.Demands (jobOnewayNotify n) () Q H w := by
  rw [jobOnewayNotify, Action.safe_bind, ask, Action.safe_ask]
  refine ⟨unseen, ?_⟩
  rintro added w' ⟨w₁, same, rfl, rfl⟩
  have unseen₁ : w₁.detected = false := by
    rw [same.same]
    exact unseen
  rw [Action.safe_ite]
  constructor
  · intro free
    have free : w₁.cancelled = false := by simpa using free
    refine ⟨by simp [World.Demands, unseen₁, free], ?_⟩
    rintro _ _ ⟨w₂, later, rfl⟩
    have still : (w₁.detected || w₁.cancelled) = w₁.detected := by rw [free, Bool.or_false]
    rw [still] at later
    exact posts w₂ (same.trans later)
  · intro refused
    have refused : w₁.cancelled = true := by simpa using refused
    have after := refuses w₁ same (same.after refused)
    simpa [refused] using after

end Notify

theorem Collected.told (collected : Collected items listing atEnd x w) (short : x.2 < items) {result : VfsResult}
    (ended : w.cancellation = false → w.left = [] ∧ result = atEnd) :
    Action.safe (World.Serves (U := U)) World.Demands (jobOnewayNotify ⟨result, x.1.reverse, x.2⟩) ()
      (fun _ _ w => Loaded items listing atEnd w) (fun _ _ => False) w := by
  apply safe_jobOnewayNotify collected.unseen
  · intro w' same
    refine (collected.meanwhile same).last short fun goesOn => ?_
    obtain ⟨empty, told⟩ := ended (same.before goesOn)
    exact ⟨by rw [same.same]; exact empty, told⟩
  · intro w' same cancelled
    exact (((collected.meanwhile same).refused cancelled).detect true).loaded

/-- Between two rounds. -/
def Loading (items : Nat) (listing : List I) (atEnd : VfsResult) (x : List I × Nat) (w : World I) : Prop :=
  Collected items listing atEnd x w ∧ x.2 < items ∨ Refused items listing w

/-- A round reads an entry, and notifies of a full batch, or is the last. -/
theorem safe_loadRound (positive : 0 < items) (failed : atEnd ≠ .ok) (loading : Loading items listing atEnd x w) :
    Action.safe (World.Serves (U := U)) World.Demands (loadRound items x) ()
      (fun r _ w' => match r with
        | .again y => Loading items listing atEnd y w' ∧ w'.left.length < w.left.length
        | .finish list => list = [] ∧ Loaded items listing atEnd w') (fun _ _ => False) w := by
  rw [loadRound, Action.safe_bind, ask, Action.safe_ask]
  refine ⟨trivial, ?_⟩
  rintro _ _ ⟨w₁, same, rfl, rfl⟩
  rw [Action.safe_ite]
  constructor
  · intro cancelled
    have refused : Refused items listing w₁ := by
      rcases loading with ⟨collected, -⟩ | refused
      · exact (collected.meanwhile same).refused cancelled
      · exact refused.meanwhile same
    exact ⟨rfl, (refused.detect _).loaded⟩
  · intro goesOn
    have goesOn : w₁.cancellation = false := by simpa using goesOn
    have still : (w₁.detected || w₁.cancellation) = w₁.detected := by rw [goesOn, Bool.or_false]
    rw [still]
    obtain ⟨collected, short⟩ : Collected items listing atEnd x w₁ ∧ x.2 < items := by
      rcases loading with ⟨collected, short⟩ | refused
      · exact ⟨collected.meanwhile same, short⟩
      · rw [(refused.meanwhile same).cancelled] at goesOn
        cases goesOn
    rw [Action.safe_bind, ask, Action.safe_ask]
    refine ⟨trivial, ?_⟩
    rintro ⟨result, info⟩ w₃ ⟨w₂, later, read⟩
    have collected := collected.meanwhile later
    have left : w₂.left = w.left := by rw [later.same, same.same]
    rcases read with ⟨rfl, rest, more, rfl⟩ | ended
    · have entered := collected.entry more
      have fewer : rest.length < w.left.length := by rw [← left, more, List.length_cons]; omega
      dsimp only
      rw [if_pos rfl, Action.safe_ite]
      constructor
      · intro full
        have full : x.2 + 1 = items := full.resolve_right (by simp)
        rw [Action.safe_bind]
        apply safe_jobOnewayNotify entered.unseen
        · intro w' same
          exact ⟨.inl ⟨(entered.meanwhile same).posted full, positive⟩, by rw [same.same]; exact fewer⟩
        · intro w' same cancelled
          have refused := (entered.meanwhile same).refused cancelled
          exact ⟨.inr (refused.detect true), by rw [same.same]; exact fewer⟩
      · intro more
        have more : ¬ x.2 + 1 = items := fun full => more (.inl full)
        exact ⟨.inl ⟨entered, by dsimp only; omega⟩, fewer⟩
    · -- the end of the directory, or a cancellation that the read has noticed
      obtain ⟨failed, rfl, ended⟩ : result ≠ .ok ∧ w₃ = w₂ ∧ (w₂.cancellation = false → w₂.left = [] ∧ result = atEnd) := by
        rcases ended with ⟨empty, rfl, rfl⟩ | ⟨cancelled, rfl, rfl⟩
        · rw [collected.ends]
          exact ⟨failed, rfl, fun _ => ⟨empty, rfl⟩⟩
        · refine ⟨by simp, rfl, fun never => ?_⟩
          rw [cancelled] at never
          cases never
      dsimp only
      rw [if_neg failed, if_pos (.inr failed), Action.safe_bind]
      refine Action.safe_mono (collected.told short ended) ?_ fun _ _ => id
      intro _ _ w' loaded
      rw [if_pos failed]
      exact ⟨rfl, loaded⟩

/-- Whenever another thread cancels it, loading a directory ends: it posts nothing any more once it has seen
that it is cancelled, the assertion holds, and what has been posted are batches of the listing in its
order, of which all but the last are full; without a cancellation they are the whole listing, and the
last is short and has the result. -/
theorem loadDirectoryDetails_loads (uri : U) (items : Nat) (positive : 0 < items) (listing : List I) (atEnd : VfsResult)
    (failed : atEnd ≠ .ok) (fuel : Nat) (enough : listing.length < fuel) (cancellation cancelled : Bool) :
    Action.safe (World.Serves (U := U)) World.Demands (loadDirectoryDetails fuel (some uri) items) ()
      (fun _ _ w => Loaded items listing atEnd w) (fun _ _ => False)
      ⟨listing, atEnd, [], [], cancellation, cancelled, false⟩ := by
  have start : Collected items listing atEnd ([], 0) ⟨listing, atEnd, [], [], cancellation, cancelled, false⟩ :=
    ⟨rfl, rfl, rfl, List.forall_mem_nil _, rfl, rfl⟩
  rw [loadDirectoryDetails, Action.safe_bind]
  dsimp only
  rw [ask, Action.safe_ask]
  refine ⟨trivial, ?_⟩
  rintro result w ⟨_, same, opened, rfl⟩
  have collected := start.meanwhile same
  have whole : w.left = listing := by rw [same.same]
  rw [Action.safe_ite]
  constructor
  · intro unopened
    obtain ⟨empty, rfl⟩ := opened.resolve_left unopened
    exact collected.told positive fun _ => ⟨empty, collected.ends⟩
  · intro _
    rw [Action.safe_bind]
    apply Action.safe_loop fun fuel x _ w => Loading items listing atEnd x w ∧ w.left.length < fuel
    · rintro fuel x s w ⟨loading, enough⟩
      refine Action.safe_mono (safe_loadRound positive failed loading) ?_ fun _ _ => id
      intro r s w' after
      cases r with
      | again y => exact ⟨after.1, by have := after.2; omega⟩
      | finish list =>
        obtain ⟨rfl, loaded⟩ := after
        dsimp only
        rw [Action.safe_ite]
        refine ⟨fun never => absurd rfl never, fun _ => ⟨trivial, ?_⟩⟩
        rintro _ _ ⟨w₁, same, rfl⟩
        exact loaded.meanwhile same
    · rintro x s w ⟨-, never⟩
      omega
    · exact ⟨.inl ⟨collected, positive⟩, by rw [whole]; exact enough⟩

theorem loadDirectoryDetails_loads_four :
    Action.safe (World.Serves (U := Unit)) World.Demands (loadDirectoryDetails 5 (some ()) 2) ()
      (fun _ _ w => Loaded 2 [1, 2, 3, 4] .eof w) (fun _ _ => False) ⟨[1, 2, 3, 4], .eof, [], [], false, false, false⟩ :=
  loadDirectoryDetails_loads () 2 (by decide) [1, 2, 3, 4] .eof (by decide) 5 (by decide) false false

end Loads

end GnomeVfs.AsyncLoad
