import GnomeVfs.AsyncStep

/- A cancelled operation is not called back, unless the answer of a channel is on its way. -/
namespace GnomeVfs.Async

open Transition

section Summary

variable {s t : State} {i : Nat} {thread : Thread}

/-- What a step of a thread leaves: its own new phase, and jobs that keep their callback. -/
structure Summary (s : State) (i : Nat) (thread : Thread) (phase : Phase) (t : State) : Prop where
  threads : t.threads = s.threads.set i ⟨thread.job, phase⟩
  filled : ∀ x, phase.filled = some x → thread.phase.filled = some x ∨
    x = ((s.jobs thread.job).op.type, (s.jobs thread.job).op.callback) ∧
      (s.jobs thread.job).cancelled = false ∧ fillsFirst (s.jobs thread.job).op.type = true ∧
        thread.phase.executing = true
  executing : phase.executing = true → thread.phase.executing = true ∨ s.getJob thread.job = true
  jobs : ∀ h, (s.jobs h).Kept (t.jobs h)
  operations : t.operations = s.operations
  nextJob : t.nextJob = s.nextJob
  live : t.live ⊆ s.live
  map : t.jobMap.getD ∅ ⊆ s.jobMap.getD ∅
  main : t.main = s.main
  ran : t.ran = s.ran

theorem kept_update {job : Job} {g : Nat} (kept : (s.jobs g).Kept job) (h : Nat) :
    (s.jobs h).Kept (Function.update s.jobs g job h) := by
  by_cases here : h = g
  · subst here
    rwa [Function.update_self]
  · rw [Function.update_of_ne here]
    exact .refl _

theorem Worked.summary (worked : Worked s i thread t) : ∃ phase, Summary s i thread phase t := by
  have refl : ∀ h, (s.jobs h).Kept (s.jobs h) := fun h => .refl _
  cases worked with
  | bails _ =>
    exact ⟨.gone, rfl, by simp [Phase.filled], by simp [Phase.executing], refl, rfl, rfl, subset_rfl,
      subset_rfl, rfl, rfl⟩
  | returns _ =>
    exact ⟨.gone, rfl, by simp [Phase.filled], by simp [Phase.executing], refl, rfl, rfl, subset_rfl,
      subset_rfl, rfl, rfl⟩
  | moves job phase _ kept advances _ =>
    exact ⟨phase, rfl, advances.filled, advances.executing, kept_update kept, rfl, rfl, subset_rfl,
      subset_rfl, rfl, rfl⟩
  | refused job phase _ kept advances _ _ _ =>
    exact ⟨phase, rfl, advances.filled, advances.executing, kept_update kept, rfl, rfl, subset_rfl,
      subset_rfl, rfl, rfl⟩
  | added job r type callback sync _ kept _ advances _ _ _ =>
    exact ⟨_, rfl, advances.filled, advances.executing, kept_update kept, rfl, rfl, subset_rfl,
      subset_rfl, rfl, rfl⟩
  | idles id r phase _ advances _ =>
    exact ⟨phase, rfl, advances.filled, advances.executing, refl, rfl, rfl, subset_rfl, subset_rfl, rfl, rfl⟩
  | frees m _ mapped _ =>
    refine ⟨.gone, rfl, by simp [Phase.filled], by simp [Phase.executing], refl, rfl, rfl,
      Finset.erase_subset _ _, ?_, rfl, rfl⟩
    rw [getD_given_up, mapped]
    exact Finset.erase_subset _ _

/-- A notification that a thread has just added: it is that of the operation of the job or the one
that was filled in, and the job was not cancelled. -/
structure New (s : State) (thread : Thread) (x : NotifyResult) : Prop where
  handle : x.jobHandle = thread.job
  alive : thread.job ∈ s.live
  executing : thread.phase.executing = true
  uncancelled : (s.jobs thread.job).cancelled = false
  gives : Gives s thread x.type x.callback

/-- The notifications behind a step of a thread: at most one is new. -/
structure Notified (s : State) (thread : Thread) (t : State) : Prop where
  grows : s.nextCallback ≤ t.nextCallback
  old : ∀ id, id ≤ s.nextCallback → t.results id = s.results id
  map : ∀ id ∈ t.callbackMap.getD ∅, id ∈ s.callbackMap.getD ∅ ∨
    id ≤ t.nextCallback ∧ New s thread (t.results id)
  results : ∀ id, t.results id = s.results id ∨ New s thread (t.results id)

theorem Worked.notified (worked : Worked s i thread t) : Notified s thread t := by
  cases worked with
  | added job r type callback sync alive _ running _ _ uncancelled gives =>
    have new : ∀ id, id = s.nextCallback + 1 → New s thread
        (Function.update s.results (s.nextCallback + 1) ⟨thread.job, false, type, callback, sync⟩ id) := by
      rintro id rfl
      rw [Function.update_self]
      exact ⟨rfl, alive, running, uncancelled, gives⟩
    refine ⟨Nat.le_succ _, ?_, ?_, ?_⟩
    · intro id old
      exact Function.update_of_ne (by omega) _ _
    · intro id member
      rcases Finset.mem_insert.mp member with here | old
      · exact Or.inr ⟨Nat.le_of_eq here, new id here⟩
      · exact Or.inl old
    · intro id
      by_cases here : id = s.nextCallback + 1
      · exact Or.inr (new id here)
      · exact Or.inl (Function.update_of_ne here _ _)
  | refused _ _ _ _ _ _ _ _ =>
    exact ⟨Nat.le_succ _, fun _ _ => rfl, fun id member => Or.inl member, fun _ => Or.inl rfl⟩
  | _ => exact ⟨le_refl _, fun _ _ => rfl, fun id member => Or.inl member, fun _ => Or.inl rfl⟩

end Summary

/-- A notification in which nothing but the flag may have been set. -/
structure NotifyResult.Marked (x y : NotifyResult) : Prop where
  jobHandle : x.jobHandle = y.jobHandle
  type : x.type = y.type
  callback : x.callback = y.callback
  sync : x.sync = y.sync
  cancelled : y.cancelled = true → x.cancelled = true

theorem NotifyResult.Marked.channelAnswer {x y : NotifyResult} (marked : x.Marked y) :
    x.ChannelAnswer ↔ y.ChannelAnswer := by
  rw [ChannelAnswer, ChannelAnswer, marked.type, marked.sync]

theorem cancelCallbacks_marked (s : State) (g id : Nat) :
    ((cancelCallbacks s g).results id).Marked (s.results id) := by
  simp only [cancelCallbacks]
  split
  · exact ⟨rfl, rfl, rfl, rfl, fun _ => rfl⟩
  · exact ⟨rfl, rfl, rfl, rfl, fun cancelled => cancelled⟩

/-- What `gnome_vfs_async_cancel` does to a job that is in the map. -/
def cancelJob (s : State) (h : Nat) : State :=
  s.modifyJob h fun job => { job with cancelled := true, op := { job.op with cancellation := true } }

theorem cancelJob_self (s : State) (h : Nat) : ((cancelJob s h).jobs h).cancelled = true := by
  simp [cancelJob, State.modifyJob]

theorem cancelJob_jobs (s : State) (h g : Nat) :
    ((cancelJob s h).jobs g).op.callback = (s.jobs g).op.callback ∧
      ((s.jobs g).cancelled = true → ((cancelJob s h).jobs g).cancelled = true) := by
  by_cases mine : g = h
  · subst mine
    simp [cancelJob, State.modifyJob]
  · simp [cancelJob, State.modifyJob, Function.update_of_ne mine]

variable {type : OpType} {e : Event}

section Tracked

/-- Where the callback of an operation is kept, the job of that operation is meant; and a thread
that has filled in its notification is not at a job that is still being opened. -/
structure Tracked (s : State) : Prop where
  job : ∀ h n, (s.jobs h).op.callback = .user n → s.operations[n]? = some h
  filled : ∀ thread ∈ s.threads, ∀ type n, thread.phase.filled = some (type, .user n) →
    s.operations[n]? = some thread.job
  result : ∀ id n, (s.results id).callback = .user n → s.operations[n]? = some (s.results id).jobHandle
  opened : ∀ thread ∈ s.threads, thread.phase.filled ≠ none →
    opensJob (s.jobs thread.job).op.type = false
  bound : ∀ thread ∈ s.threads, thread.job ≤ s.nextJob
  live : ∀ h ∈ s.live, h ≤ s.nextJob
  ids : ∀ id ∈ s.callbackMap.getD ∅, id ≤ s.nextCallback

variable {s t : State} {i h : Nat} {thread : Thread}

theorem fillsFirst_opensJob (type : OpType) (first : fillsFirst type = true) : opensJob type = false := by
  cases type <;> first | rfl | cases first

theorem Job.Kept.closed {a b : Job} (kept : a.Kept b) (closed : opensJob a.op.type = false) :
    opensJob b.op.type = false := by
  cases after : opensJob b.op.type with
  | false => rfl
  | true =>
    rw [kept.opens after] at closed
    cases closed

theorem Tracked.worked (tracked : Tracked s) (found : s.threads[i]? = some thread) (worked : Worked s i thread t) :
    Tracked t := by
  have member := List.mem_of_getElem? found
  obtain ⟨phase, summary⟩ := worked.summary
  have notified := worked.notified
  have job : ∀ h n, (t.jobs h).op.callback = .user n → s.operations[n]? = some h := by
    intro h n same
    rw [(summary.jobs h).callback] at same
    exact tracked.job h n same
  refine ⟨?_, ?_, ?_, ?_, ?_, ?_, ?_⟩
  · rw [summary.operations]
    exact job
  · rw [summary.threads, summary.operations]
    intro other inside type n here
    rcases List.mem_or_eq_of_mem_set inside with before | rfl
    · exact tracked.filled other before type n here
    · rcases summary.filled _ here with before | ⟨new, -⟩
      · exact tracked.filled thread member type n before
      · exact tracked.job thread.job n (congrArg Prod.snd new).symm
  · rw [summary.operations]
    intro id n same
    rcases notified.results id with before | new
    · rw [before] at same ⊢
      exact tracked.result id n same
    · have gives := new.gives
      rw [new.handle]
      rw [same] at gives
      rcases gives with module | filled | operation
      · cases module
      · exact tracked.filled thread member _ n filled
      · exact tracked.job thread.job n operation.symm
  · rw [summary.threads]
    intro other inside here
    rcases List.mem_or_eq_of_mem_set inside with before | rfl
    · exact (summary.jobs other.job).closed (tracked.opened other before here)
    · obtain ⟨x, shape⟩ := Option.ne_none_iff_exists'.mp here
      rcases summary.filled x shape with before | ⟨-, -, first, -⟩
      · exact (summary.jobs thread.job).closed (tracked.opened thread member (by simp [before]))
      · exact (summary.jobs thread.job).closed (fillsFirst_opensJob _ first)
  · rw [summary.threads, summary.nextJob]
    intro other inside
    rcases List.mem_or_eq_of_mem_set inside with before | rfl
    · exact tracked.bound other before
    · exact tracked.bound thread member
  · rw [summary.nextJob]
    intro h alive
    exact tracked.live h (summary.live alive)
  · intro id inside
    rcases notified.map id inside with before | ⟨bound, -⟩
    · exact (tracked.ids id before).trans notified.grows
    · exact bound

/-- An operation that is started is the next one, and everything before it stays where it was. -/
theorem getElem?_append_of_some {l : List Nat} {n h : Nat} (before : l[n]? = some h) (g : Nat) :
    (l ++ [g])[n]? = some h := by
  rw [List.getElem?_append_left (List.getElem?_eq_some_iff.mp before).1]
  exact before

theorem Tracked.jobNew (tracked : Tracked s) (type : OpType) : Tracked (jobNew s type) := by
  have apart : ∀ thread ∈ s.threads, thread.job ≠ s.nextJob + 1 := by
    intro thread member
    have := tracked.bound thread member
    omega
  refine ⟨?_, ?_, ?_, ?_, ?_, ?_, tracked.ids⟩
  · intro h n same
    by_cases here : h = s.nextJob + 1
    · subst here
      simp only [Async.jobNew, Function.update_self, Callback.user.injEq] at same
      simp [Async.jobNew, ← same]
    · simp only [Async.jobNew, Function.update_of_ne here] at same
      exact getElem?_append_of_some (tracked.job h n same) _
  · intro thread member type n here
    exact getElem?_append_of_some (tracked.filled thread member type n here) _
  · intro id n same
    exact getElem?_append_of_some (tracked.result id n same) _
  · intro thread member here
    simp only [Async.jobNew, Function.update_of_ne (apart thread member)]
    exact tracked.opened thread member here
  · intro thread member
    exact Nat.le_succ_of_le (tracked.bound thread member)
  · intro h alive
    rcases Finset.mem_insert.mp alive with rfl | before
    · exact le_refl _
    · exact Nat.le_succ_of_le (tracked.live h before)

theorem Tracked.went (tracked : Tracked s) (bound : h ≤ s.nextJob) (went : Went s h t) : Tracked t := by
  have pushed : ∀ {P : Thread → Prop}, (∀ thread ∈ s.threads, P thread) → P ⟨h, .queued⟩ →
      ∀ thread ∈ s.threads ++ [⟨h, .queued⟩], P thread := by
    intro P before new thread member
    rcases List.mem_append.mp member with old | last
    · exact before thread old
    · rw [List.mem_singleton.mp last]
      exact new
  have erased : ∀ g ∈ s.live.erase h, g ≤ s.nextJob := by
    intro g alive
    exact tracked.live g (Finset.mem_of_mem_erase alive)
  cases went with
  | destroyed _ _ =>
    exact ⟨tracked.job, tracked.filled, tracked.result, tracked.opened, tracked.bound, erased, tracked.ids⟩
  | queued _ =>
    exact ⟨tracked.job, pushed tracked.filled (by simp [Phase.filled]), tracked.result,
      pushed tracked.opened (by simp [Phase.filled]), pushed tracked.bound bound, tracked.live, tracked.ids⟩
  | dropped _ _ _ _ =>
    exact ⟨tracked.job, pushed tracked.filled (by simp [Phase.filled]), tracked.result,
      pushed tracked.opened (by simp [Phase.filled]), pushed tracked.bound bound, erased, tracked.ids⟩

theorem Tracked.jobSet (tracked : Tracked s) (h : Nat) (type : OpType) (callback : Callback)
    {operations : List Nat} (closes : opensJob type = false)
    (grown : ∀ n g : Nat, s.operations[n]? = some g → operations[n]? = some g)
    (own : ∀ n, callback = .user n → operations[n]? = some h) :
    Tracked { jobSet s h type callback with operations } := by
  have jobs : ∀ g, g ≠ h → (Async.jobSet s h type callback).jobs g = s.jobs g := by
    intro g other
    exact Function.update_of_ne other _ _
  have here : (Async.jobSet s h type callback).jobs h =
      { s.jobs h with op := ⟨type, callback, false⟩, cancelled := false } := Function.update_self ..
  refine ⟨?_, ?_, ?_, ?_, tracked.bound, tracked.live, tracked.ids⟩
  · intro g n same
    by_cases mine : g = h
    · subst mine
      rw [here] at same
      exact own n same
    · rw [jobs g mine] at same
      exact grown n g (tracked.job g n same)
  · intro thread member type n filled
    exact grown n _ (tracked.filled thread member type n filled)
  · intro id n same
    exact grown n _ (tracked.result id n same)
  · intro thread member filled
    by_cases mine : thread.job = h
    · rw [mine, here]
      exact closes
    · rw [jobs thread.job mine]
      exact tracked.opened thread member filled

theorem Tracked.modifyJob (tracked : Tracked s) {f : Job → Job} (kept : ∀ job : Job, job.Kept { f job with
    cancelled := job.cancelled }): Tracked (s.modifyJob h f) := by
  have same : ∀ g, ((s.modifyJob h f).jobs g).op.callback = (s.jobs g).op.callback ∧
      (opensJob (s.jobs g).op.type = false → opensJob ((s.modifyJob h f).jobs g).op.type = false) := by
    intro g
    by_cases mine : g = h
    · subst mine
      simp only [State.modifyJob, Function.update_self]
      exact ⟨(kept (s.jobs g)).callback, (kept (s.jobs g)).closed⟩
    · simp [State.modifyJob, Function.update_of_ne mine]
  refine ⟨?_, tracked.filled, tracked.result, ?_, tracked.bound, tracked.live, tracked.ids⟩
  · intro g n here
    rw [(same g).1] at here
    exact tracked.job g n here
  · intro thread member filled
    exact (same thread.job).2 (tracked.opened thread member filled)

theorem Tracked.cancelCallbacks (tracked : Tracked s) (h : Nat) : Tracked (cancelCallbacks s h) := by
  refine ⟨tracked.job, tracked.filled, ?_, tracked.opened, tracked.bound, tracked.live, tracked.ids⟩
  intro id n same
  have before := tracked.result id n
  simp only [Async.cancelCallbacks] at same ⊢
  split at same
  · rename_i mine
    rw [if_pos mine]
    exact before same
  · rename_i other
    rw [if_neg other]
    exact before same

theorem Tracked.cancelJob (tracked : Tracked s) (h : Nat) : Tracked (cancelJob s h) :=
  tracked.modifyJob fun _ => ⟨rfl, rfl, id⟩

theorem usesHandle_opensJob (type : OpType) (uses : usesHandle type = true) : opensJob type = false := by
  cases type <;> first | rfl | cases uses

theorem Tracked.operated (tracked : Tracked s) (uses : usesHandle type = true) :
    Tracked { Async.jobSet s h type (.user s.operations.length) with operations := s.operations ++ [h] } := by
  apply tracked.jobSet h type _ (usesHandle_opensJob type uses)
  · intro n g before
    exact getElem?_append_of_some before h
  · intro n same
    cases same
    simp

theorem Tracked.closes (tracked : Tracked s) :
    Tracked (Async.jobSet { s with main := .idle } h .close .emptyClose) := by
  have waits : Tracked { s with main := .idle } := ⟨tracked.job, tracked.filled, tracked.result, tracked.opened,
    tracked.bound, tracked.live, tracked.ids⟩
  exact waits.jobSet h .close .emptyClose rfl (fun _ _ same => same) (by simp)

theorem Tracked.happened (tracked : Tracked s) (happened : Happened s e t) : Tracked t := by
  cases happened with
  | launched type _ _ went => exact (tracked.jobNew type).went (le_refl _) went
  | operated h type _ uses _ alive went => exact (tracked.operated uses).went (tracked.live h alive) went
  | closed _ id _ _ _ alive _ _ went => exact tracked.closes.went (tracked.live _ alive) went
  | cancelledCallbacks h _ => exact tracked.cancelCallbacks h
  | cancelledJob h _ _ => exact (tracked.cancelJob h).cancelCallbacks h
  | worked i thread found _ worked => exact tracked.worked found worked
  | removed id _ _ m _ mapped =>
    refine ⟨tracked.job, tracked.filled, tracked.result, tracked.opened, tracked.bound, tracked.live, ?_⟩
    intro other member
    have inside : other ∈ m := Finset.mem_of_mem_erase member
    exact tracked.ids other (by rwa [mapped])
  | acknowledged i _ _ h r _ found =>
    have member := List.mem_of_getElem? found
    have changed : ∀ other ∈ s.threads.set i ⟨h, .signalled r⟩, ∃ before ∈ s.threads,
        other.job = before.job ∧ other.phase.filled = before.phase.filled := by
      intro other inside
      rcases List.mem_or_eq_of_mem_set inside with old | rfl
      · exact ⟨other, old, rfl, rfl⟩
      · exact ⟨_, member, rfl, rfl⟩
    refine ⟨tracked.job, ?_, tracked.result, ?_, ?_, tracked.live, tracked.ids⟩
    · intro other inside type n filled
      obtain ⟨before, old, job, same⟩ := changed other inside
      rw [job]
      exact tracked.filled before old type n (same ▸ filled)
    · intro other inside filled
      obtain ⟨before, old, job, same⟩ := changed other inside
      rw [job]
      exact tracked.opened before old (same ▸ filled)
    · intro other inside
      obtain ⟨before, old, job, -⟩ := changed other inside
      rw [job]
      exact tracked.bound before old
  | callbacksDown _ =>
    exact ⟨tracked.job, tracked.filled, tracked.result, tracked.opened, tracked.bound, tracked.live, by simp⟩
  | _ =>
    exact ⟨tracked.job, tracked.filled, tracked.result, tracked.opened, tracked.bound, tracked.live,
      tracked.ids⟩

end Tracked

variable {callback : Callback}

section Silenced

/-- A job through which a notification can still come: it is in the map, or a thread is at it. -/
def Exposed (s : State) (h : Nat) : Prop :=
  h ∈ s.live ∧ (h ∈ s.jobMap.getD ∅ ∨
    ∃ thread ∈ s.threads, thread.job = h ∧ thread.phase.executing = true)

/-- Nothing is on its way to the callback of the operation `n` on the handle `h`. -/
structure Silenced (n h : Nat) (s : State) : Prop where
  tracked : Tracked s
  owner : s.operations[n]? = some h
  pending : ∀ id ∈ s.callbackMap.getD ∅, (s.results id).callback = .user n →
    (s.results id).cancelled = true ∧ ¬ (s.results id).ChannelAnswer
  job : ∀ g, Exposed s g → (s.jobs g).op.callback = .user n → (s.jobs g).cancelled = true
  filled : ∀ thread ∈ s.threads, ∀ type, thread.job ∈ s.live →
    thread.phase.filled = some (type, .user n) → (s.jobs thread.job).cancelled = true
  main : ∀ id c, s.main = .checked id true c ∨ s.main = .removed id true c → id ≤ s.nextCallback ∧
    ((s.results id).callback = .user n → c = true ∧ ¬ (s.results id).ChannelAnswer)

variable {n h g : Nat} {s t : State} {i : Nat} {thread : Thread}

theorem Silenced.ne_next (silenced : Silenced n h s) : s.operations.length ≠ n := by
  have bound := (List.getElem?_eq_some_iff.mp silenced.owner).1
  omega

theorem Silenced.not_new (silenced : Silenced n h s) (member : thread ∈ s.threads) {x : NotifyResult}
    (new : New s thread x) : x.callback ≠ .user n := by
  intro same
  have gives := new.gives
  have exposed : Exposed s thread.job := ⟨new.alive, Or.inr ⟨thread, member, rfl, new.executing⟩⟩
  have cancelled : (s.jobs thread.job).cancelled = true := by
    rw [same] at gives
    rcases gives with module | filled | operation
    · cases module
    · exact silenced.filled thread member _ new.alive filled
    · exact silenced.job _ exposed operation.symm
  rw [new.uncancelled] at cancelled
  cases cancelled

theorem Silenced.worked (silenced : Silenced n h s) (found : s.threads[i]? = some thread)
    (worked : Worked s i thread t) : Silenced n h t := by
  have member := List.mem_of_getElem? found
  obtain ⟨phase, summary⟩ := worked.summary
  have notified := worked.notified
  have cancelled : ∀ g, (s.jobs g).cancelled = true → (t.jobs g).cancelled = true := by
    intro g before
    rw [(summary.jobs g).cancelled]
    exact before
  have exposed : ∀ g, Exposed t g → Exposed s g := by
    rintro g ⟨alive, there | ⟨other, inside, job, executing⟩⟩
    · exact ⟨summary.live alive, Or.inl (summary.map there)⟩
    · rw [summary.threads] at inside
      refine ⟨summary.live alive, ?_⟩
      rcases List.mem_or_eq_of_mem_set inside with before | rfl
      · exact Or.inr ⟨other, before, job, executing⟩
      · rcases summary.executing executing with before | there
        · exact Or.inr ⟨thread, member, job, before⟩
        · exact Or.inl (job ▸ getJob_iff.mp there)
  refine ⟨silenced.tracked.worked found worked, ?_, ?_, ?_, ?_, ?_⟩
  · rw [summary.operations]
    exact silenced.owner
  · intro id inside same
    rcases notified.map id inside with before | ⟨-, new⟩
    · rw [notified.old id (silenced.tracked.ids id before)] at same ⊢
      exact silenced.pending id before same
    · exact absurd same (silenced.not_new member new)
  · intro g open_ same
    rw [(summary.jobs g).callback] at same
    exact cancelled g (silenced.job g (exposed g open_) same)
  · rw [summary.threads]
    intro other inside type alive here
    rcases List.mem_or_eq_of_mem_set inside with before | rfl
    · exact cancelled _ (silenced.filled other before type (summary.live alive) here)
    · rcases summary.filled _ here with before | ⟨new, uncancelled, -, executing⟩
      · exact cancelled _ (silenced.filled thread member type (summary.live alive) before)
      · have at_ : Exposed s thread.job := ⟨summary.live alive, Or.inr ⟨thread, member, rfl, executing⟩⟩
        have stopped := silenced.job _ at_ (congrArg Prod.snd new).symm
        rw [uncancelled] at stopped
        cases stopped
  · rw [summary.main]
    intro id c at_
    obtain ⟨bound, before⟩ := silenced.main id c at_
    rw [notified.old id bound]
    exact ⟨bound.trans notified.grows, before⟩

/-- What is silenced stays so where no notification is added and no job of the operation changes. -/
theorem Silenced.transfer (silenced : Silenced n h s) (tracked : Tracked t)
    (owner : t.operations[n]? = some h) (results : t.results = s.results)
    (next : t.nextCallback = s.nextCallback) (map : t.callbackMap.getD ∅ ⊆ s.callbackMap.getD ∅)
    (job : ∀ g, Exposed t g → (t.jobs g).op.callback = .user n → Exposed s g ∧ t.jobs g = s.jobs g)
    (filled : ∀ thread ∈ t.threads, ∀ type, thread.job ∈ t.live →
      thread.phase.filled = some (type, .user n) →
    (∃ before ∈ s.threads, before.job = thread.job ∧ before.phase.filled = thread.phase.filled) ∧
          thread.job ∈ s.live ∧ t.jobs thread.job = s.jobs thread.job)
    (main : t.main = s.main ∨ t.main = .idle): Silenced n h t := by
  refine ⟨tracked, owner, ?_, ?_, ?_, ?_⟩
  · rw [results]
    intro id inside
    exact silenced.pending id (map inside)
  · intro g open_ same
    obtain ⟨before, equal⟩ := job g open_ same
    rw [equal] at same ⊢
    exact silenced.job g before same
  · intro thread inside type alive here
    obtain ⟨⟨before, old, at_, same⟩, there, equal⟩ := filled thread inside type alive here
    rw [equal, ← at_]
    exact silenced.filled before old type (at_ ▸ there) (same.trans here)
  · rw [results, next]
    intro id c at_
    rcases main with same | idle
    · rw [same] at at_
      exact silenced.main id c at_
    · rw [idle] at at_
      rcases at_ with here | here <;> cases here

theorem Silenced.of_eq (silenced : Silenced n h s) (tracked : Tracked t) (operations : t.operations = s.operations)
    (results : t.results = s.results) (next : t.nextCallback = s.nextCallback)
    (callbacks : t.callbackMap.getD ∅ ⊆ s.callbackMap.getD ∅) (jobs : t.jobs = s.jobs) (live : t.live = s.live)
    (map : t.jobMap.getD ∅ ⊆ s.jobMap.getD ∅) (threads : t.threads = s.threads)
    (main : t.main = s.main ∨ t.main = .idle) : Silenced n h t := by
  apply silenced.transfer tracked (operations ▸ silenced.owner) results next callbacks ?_ ?_ main
  · rintro g ⟨alive, open_⟩ _
    rw [live] at alive
    rw [threads] at open_
    exact ⟨⟨alive, open_.imp_left fun there => map there⟩, congrFun jobs g⟩
  · rw [threads, live, jobs]
    intro thread inside type alive _
    exact ⟨⟨thread, inside, rfl, rfl⟩, alive, rfl⟩

/-- A job that waits for a thread or is freed brings nothing new. -/
theorem Silenced.went (silenced : Silenced n h s) (bound : g ≤ s.nextJob) (went : Went s g t) :
    Silenced n h t := by
  have tracked := silenced.tracked.went bound went
  have executing : ∀ k, (∃ thread ∈ s.threads ++ [⟨g, .queued⟩], thread.job = k ∧
      thread.phase.executing = true) → ∃ thread ∈ s.threads, thread.job = k ∧ thread.phase.executing = true := by
    rintro k ⟨thread, inside, job, active⟩
    rcases List.mem_append.mp inside with old | last
    · exact ⟨thread, old, job, active⟩
    · rw [List.mem_singleton.mp last] at active
      cases active
  have filled : ∀ thread ∈ s.threads ++ [⟨g, .queued⟩], ∀ x, thread.phase.filled = some x →
      ∃ before ∈ s.threads, before.job = thread.job ∧ before.phase.filled = thread.phase.filled := by
    intro thread inside x here
    rcases List.mem_append.mp inside with old | last
    · exact ⟨thread, old, rfl, rfl⟩
    · rw [List.mem_singleton.mp last] at here
      cases here
  cases went with
  | queued _ =>
    apply silenced.transfer tracked silenced.owner rfl rfl subset_rfl ?_ ?_ (Or.inl rfl)
    · rintro k ⟨alive, open_⟩ _
      exact ⟨⟨alive, open_.imp_right (executing k)⟩, rfl⟩
    · intro thread inside type alive here
      exact ⟨filled thread inside _ here, alive, rfl⟩
  | destroyed _ _ =>
    apply silenced.transfer tracked silenced.owner rfl rfl subset_rfl ?_ ?_ (Or.inl rfl)
    · rintro k ⟨alive, open_⟩ _
      exact ⟨⟨Finset.mem_of_mem_erase alive, open_⟩, rfl⟩
    · intro thread inside type alive here
      exact ⟨⟨thread, inside, rfl, rfl⟩, Finset.mem_of_mem_erase alive, rfl⟩
  | dropped m _ mapped _ =>
    apply silenced.transfer tracked silenced.owner rfl rfl subset_rfl ?_ ?_ (Or.inl rfl)
    · rintro k ⟨alive, open_⟩ _
      rw [getD_given_up] at open_
      refine ⟨⟨Finset.mem_of_mem_erase alive, ?_⟩, rfl⟩
      rcases open_ with there | active
      · rw [mapped]
        exact Or.inl (Finset.mem_of_mem_erase there)
      · exact Or.inr (executing k active)
    · intro thread inside type alive here
      exact ⟨filled thread inside _ here, Finset.mem_of_mem_erase alive, rfl⟩

theorem Silenced.jobNew (silenced : Silenced n h s) (type : OpType) : Silenced n h (jobNew s type) := by
  have tracked := silenced.tracked.jobNew type
  have owner := getElem?_append_of_some silenced.owner (s.nextJob + 1)
  apply silenced.transfer tracked owner rfl rfl subset_rfl ?_ ?_ (Or.inl rfl)
  · rintro g ⟨alive, open_⟩ same
    have apart : g ≠ s.nextJob + 1 := by
      rintro rfl
      simp only [Async.jobNew, Function.update_self, Callback.user.injEq] at same
      exact silenced.ne_next same
    refine ⟨⟨(Finset.mem_insert.mp alive).resolve_left apart, ?_⟩, Function.update_of_ne apart _ _⟩
    rcases open_ with there | active
    · exact Or.inl ((Finset.mem_insert.mp there).resolve_left apart)
    · exact Or.inr active
  · intro thread inside type alive here
    have apart : thread.job ≠ s.nextJob + 1 := by
      have := silenced.tracked.bound thread inside
      omega
    exact ⟨⟨thread, inside, rfl, rfl⟩, (Finset.mem_insert.mp alive).resolve_left apart,
      Function.update_of_ne apart _ _⟩

theorem Silenced.jobSet (silenced : Silenced n h s) (operations : List Nat)
    (tracked : Tracked { jobSet s g type callback with operations }) (owner : operations[n]? = some h)
    (other : callback ≠ .user n)
    (apart : ∀ thread ∈ s.threads, ∀ type, thread.phase.filled = some (type, .user n) → thread.job ≠ g) :
    Silenced n h { jobSet s g type callback with operations } := by
  have jobs : ∀ k, k ≠ g → (Async.jobSet s g type callback).jobs k = s.jobs k := by
    intro k different
    exact Function.update_of_ne different _ _
  have here : ((Async.jobSet s g type callback).jobs g).op.callback = callback := by
    simp [Async.jobSet, State.modifyJob]
  apply silenced.transfer tracked owner rfl rfl subset_rfl ?_ ?_ (Or.inl rfl)
  · intro k open_ same
    have different : k ≠ g := by
      rintro rfl
      exact other (here ▸ same)
    exact ⟨open_, jobs k different⟩
  · intro thread inside type alive filled
    exact ⟨⟨thread, inside, rfl, rfl⟩, alive, jobs _ (apart thread inside type filled)⟩

/-- A cancellation only sets flags. -/
theorem Silenced.flags (silenced : Silenced n h s) (tracked : Tracked t)
    (operations : t.operations = s.operations) (next : t.nextCallback = s.nextCallback)
    (callbacks : t.callbackMap = s.callbackMap) (live : t.live = s.live) (map : t.jobMap = s.jobMap)
    (threads : t.threads = s.threads) (main : t.main = s.main)
    (results : ∀ id, (t.results id).Marked (s.results id))
    (jobs : ∀ g, (t.jobs g).op.callback = (s.jobs g).op.callback ∧
    ((s.jobs g).cancelled = true → (t.jobs g).cancelled = true)): Silenced n h t := by
  have exposed : ∀ g, Exposed t g ↔ Exposed s g := by
    intro g
    rw [Exposed, Exposed, live, map, threads]
  refine ⟨tracked, operations ▸ silenced.owner, ?_, ?_, ?_, ?_⟩
  · rw [callbacks]
    intro id inside same
    have marked := results id
    rw [marked.callback] at same
    obtain ⟨cancelled, answer⟩ := silenced.pending id inside same
    exact ⟨marked.cancelled cancelled, fun here => answer (marked.channelAnswer.mp here)⟩
  · intro g open_ same
    rw [(jobs g).1] at same
    exact (jobs g).2 (silenced.job g ((exposed g).mp open_) same)
  · rw [threads, live]
    intro thread inside type alive here
    exact (jobs _).2 (silenced.filled thread inside type alive here)
  · rw [main, next]
    intro id c at_
    obtain ⟨bound, before⟩ := silenced.main id c at_
    refine ⟨bound, ?_⟩
    intro same
    rw [(results id).callback] at same
    obtain ⟨cancelled, answer⟩ := before same
    exact ⟨cancelled, fun here => answer ((results id).channelAnswer.mp here)⟩

theorem Silenced.cancelCallbacks (silenced : Silenced n h s) (g : Nat) : Silenced n h (cancelCallbacks s g) :=
  silenced.flags (silenced.tracked.cancelCallbacks g) rfl rfl rfl rfl rfl rfl rfl (cancelCallbacks_marked s g)
    fun _ => ⟨rfl, id⟩

theorem Silenced.cancelJob (silenced : Silenced n h s) (g : Nat) : Silenced n h (cancelJob s g) := by
  apply silenced.flags (silenced.tracked.cancelJob g) rfl rfl rfl rfl rfl rfl rfl
  · intro id
    exact ⟨rfl, rfl, rfl, rfl, fun cancelled => cancelled⟩
  · intro k
    exact cancelJob_jobs s g k

/-- No new operation is started on the handle `h`. -/
def leavesAlone (h : Nat) : Event → Prop
  | .operate g _ _ => g ≠ h
  | _ => True

instance (h : Nat) : DecidablePred (leavesAlone h)
  | .operate g _ _ => inferInstanceAs (Decidable (g ≠ h))
  | .launch _ _ | .cancel _ | .worker _ _ _ | .callModule _ | .endExecute _ | .dispatch _
  | .removeCallback | .conclude _ | .acknowledge _ | .quit | .mapShutdown
  | .callbackMapDestroy => .isTrue trivial

theorem Silenced.filled_job (silenced : Silenced n h s) (member : thread ∈ s.threads)
    (filled : thread.phase.filled = some (type, .user n)) : thread.job = h := by
  have here := silenced.tracked.filled thread member type n filled
  rw [silenced.owner] at here
  exact (Option.some.inj here).symm

theorem Silenced.operated (silenced : Silenced n h s) (uses : usesHandle type = true) (apart : g ≠ h) :
    Silenced n h { Async.jobSet s g type (.user s.operations.length) with operations := s.operations ++ [g] } := by
  apply silenced.jobSet _ (silenced.tracked.operated uses) (getElem?_append_of_some silenced.owner g)
  · intro same
    cases same
    exact silenced.ne_next rfl
  · intro thread member type filled
    rw [silenced.filled_job member filled]
    exact apart.symm

theorem Silenced.closes (silenced : Silenced n h s) (opened : opensJob (s.jobs g).op.type = true) :
    Silenced n h (Async.jobSet { s with main := .idle } g .close .emptyClose) := by
  have tracked := silenced.tracked
  have waits : Silenced n h { s with main := .idle } :=
    silenced.of_eq ⟨tracked.job, tracked.filled, tracked.result, tracked.opened, tracked.bound, tracked.live,
      tracked.ids⟩ rfl rfl rfl subset_rfl rfl rfl subset_rfl rfl (Or.inr rfl)
  refine waits.jobSet s.operations tracked.closes silenced.owner (by simp) ?_
  rintro thread member type filled rfl
  rw [tracked.opened thread member (by simp [filled])] at opened
  cases opened

theorem Silenced.dispatched (silenced : Silenced n h s) {k id : Nat} {valid cancelled : Bool}
    (tracked : Tracked { s with idle := s.idle.eraseIdx k, main := .checked id valid cancelled })
    (looked : (s.callbackMap = none ∧ s.shuttingDown = true ∧ valid = false ∧ cancelled = false) ∨
      ∃ m, s.callbackMap = some m ∧ valid = decide (id ∈ m) ∧
        cancelled = decide (id ∈ m ∧ (s.results id).cancelled = true)):
    Silenced n h { s with idle := s.idle.eraseIdx k, main := .checked id valid cancelled } := by
  refine ⟨tracked, silenced.owner, silenced.pending, silenced.job, silenced.filled, ?_⟩
  intro other c at_
  obtain ⟨rfl, rfl, rfl⟩ : id = other ∧ valid = true ∧ cancelled = c := by simpa using at_
  rcases looked with ⟨-, -, never, -⟩ | ⟨m, mapped, there, flag⟩
  · cases never
  · have inside : id ∈ m := by simpa using there.symm
    have listed : id ∈ s.callbackMap.getD ∅ := by rwa [mapped]
    refine ⟨silenced.tracked.ids id listed, ?_⟩
    intro same
    obtain ⟨marked, answer⟩ := silenced.pending id listed same
    rw [flag]
    exact ⟨decide_eq_true ⟨inside, marked⟩, answer⟩

theorem Silenced.acknowledged (silenced : Silenced n h s) {rest : List Nat} {r : Running}
    (tracked : Tracked { s with acks := rest, threads := s.threads.set i ⟨g, .signalled r⟩ })
    (found : s.threads[i]? = some ⟨g, .waiting r⟩) :
    Silenced n h { s with acks := rest, threads := s.threads.set i ⟨g, .signalled r⟩ } := by
  have member := List.mem_of_getElem? found
  have changed : ∀ other ∈ s.threads.set i ⟨g, .signalled r⟩, ∃ before ∈ s.threads, before.job = other.job ∧
      before.phase.filled = other.phase.filled ∧ before.phase.executing = other.phase.executing := by
    intro other inside
    rcases List.mem_or_eq_of_mem_set inside with old | rfl
    · exact ⟨other, old, rfl, rfl, rfl⟩
    · exact ⟨_, member, rfl, rfl, rfl⟩
  apply silenced.transfer tracked silenced.owner rfl rfl subset_rfl ?_ ?_ (Or.inl rfl)
  · rintro k ⟨alive, open_⟩ _
    refine ⟨⟨alive, ?_⟩, rfl⟩
    rcases open_ with there | ⟨other, inside, job, executing⟩
    · exact Or.inl there
    · obtain ⟨before, old, same, -, active⟩ := changed other inside
      exact Or.inr ⟨before, old, same.trans job, active.trans executing⟩
  · intro other inside type alive _
    obtain ⟨before, old, same, filled, -⟩ := changed other inside
    exact ⟨⟨before, old, same, filled⟩, alive, rfl⟩

/-- Whatever happens but a new operation on the handle, nothing comes to the callback. -/
theorem Silenced.happened (silenced : Silenced n h s) (leaves : leavesAlone h e) (happened : Happened s e t) :
    Silenced n h t := by
  have tracked := silenced.tracked.happened happened
  cases happened with
  | launched type _ _ went => exact (silenced.jobNew type).went (le_refl _) went
  | unknown => exact silenced
  | operated g type _ uses _ alive went =>
    exact (silenced.operated uses leaves).went (silenced.tracked.live g alive) went
  | cancelledCallbacks g _ => exact silenced.cancelCallbacks g
  | cancelledJob g _ _ => exact (silenced.cancelJob g).cancelCallbacks g
  | worked i thread found _ worked => exact silenced.worked found worked
  | dispatched k id valid cancelled _ _ _ looked => exact silenced.dispatched tracked looked
  | removed id valid cancelled m at_ mapped =>
    refine ⟨tracked, silenced.owner, ?_, silenced.job, silenced.filled, ?_⟩
    · intro other member
      have inside : other ∈ m := Finset.mem_of_mem_erase member
      exact silenced.pending other (by rwa [mapped])
    · intro other c here
      obtain ⟨rfl, rfl, rfl⟩ : id = other ∧ valid = true ∧ cancelled = c := by simpa using here
      exact silenced.main id cancelled (Or.inl at_)
  | closed _ id _ _ _ alive opened _ went =>
    exact (silenced.closes opened).went (silenced.tracked.live _ alive) went
  | unmapped _ id _ _ _ _ _ =>
    apply silenced.of_eq tracked rfl rfl rfl subset_rfl rfl rfl ?_ rfl (Or.inr rfl)
    rw [getD_map_erase]
    exact Finset.erase_subset _ _
  | acknowledged i _ rest g r _ found => exact silenced.acknowledged tracked found
  | mapDown m mapped _ _ _ _ =>
    apply silenced.of_eq tracked rfl rfl rfl subset_rfl rfl rfl ?_ rfl (Or.inl rfl)
    rw [mapped]
    dsimp only
    split
    · simp
    · rfl
  | callbacksDown _ =>
    exact silenced.of_eq tracked rfl rfl rfl (by simp) rfl rfl subset_rfl rfl (Or.inl rfl)
  | discarded _ _ _ _ | ignored _ _ _ _ _ | called _ _ _ _ | answered _ _ _ _ _ | silenced _ _ _ _ =>
    exact silenced.of_eq tracked rfl rfl rfl subset_rfl rfl rfl subset_rfl rfl (Or.inr rfl)
  | unheard _ _ _ _ | quits _ | mapGone _ _ _ _ _ =>
    exact silenced.of_eq tracked rfl rfl rfl subset_rfl rfl rfl subset_rfl rfl (Or.inl rfl)

end Silenced

variable {pushed : Bool}

section Ran

variable {s t : State} {i h : Nat}

theorem jobDestroy_ran (s : State) (h : Nat) : (jobDestroy s h).ran = s.ran := by
  rw [jobDestroy]
  split <;> rfl

theorem jobCompleted_ran (s : State) (h : Nat) : (jobCompleted s h).ran = s.ran := by
  rw [jobCompleted]
  split <;> rfl

theorem jobGo_ran (s : State) (h : Nat) (pushed : Bool) : (jobGo s h pushed).ran = s.ran := by
  rw [jobGo]
  split
  · exact jobDestroy_ran s h
  · dsimp only
    split
    · rfl
    · rw [jobDestroy_ran, jobCompleted_ran]

theorem notify_ran (s : State) (i h : Nat) (r : Running) (type : OpType) (callback : Callback) (sync : Bool) :
    (notify s i h r type callback sync).ran = s.ran := by
  rw [notify, addCallback]
  by_cases down : s.shuttingDown = true
  · simp only [if_pos down]
    rfl
  · simp only [if_neg down]
    by_cases cancelled : (s.jobs h).cancelled = true
    · simp only [if_pos cancelled]
      rfl
    · simp only [if_neg cancelled]
      rfl

theorem launch_ran (stepped : launch s type pushed = some t) : t.ran = s.ran := by
  rw [launch] at stepped
  split at stepped
  · cases stepped
  · split at stepped
    · cases stepped
      rfl
    · cases stepped
      exact jobGo_ran _ _ _

theorem operate_ran (stepped : operate s h type pushed = some t) :
    t.ran = s.ran := by
  rw [operate] at stepped
  split at stepped
  · cases stepped
  · split at stepped
    · cases stepped
      rfl
    · split at stepped
      · cases stepped
        rfl
      · split at stepped
        · cases stepped
        · split at stepped
          · cases stepped
          · cases stepped
            exact jobGo_ran _ _ _

theorem workerStep_ran {thread : Thread} {ok handle : Bool} (stepped : workerStep s i thread ok handle = some t) :
    t.ran = s.ran := by
  rw [workerStep] at stepped
  split at stepped
  · grind [begin, State.fail, State.setPhase, State.setLocked, State.modifyJob]
  · grind [execute, State.fail, State.setPhase, State.modifyJob]
  · rw [report] at stepped
    split at stepped
    · cases stepped
    · split at stepped
      · cases stepped
        rfl
      · cases stepped
        exact notify_ran _ _ _ _ _ _ _
  · cases stepped
    rfl
  · grind [condWait, State.fail, State.setPhase, State.setLocked, State.modifyJob]
  · cases stepped
  · grind [resume, State.fail, State.setPhase, State.setLocked, State.modifyJob]
  · grind [complete, State.fail, State.setPhase, State.setLocked, State.modifyJob]
  · rw [leave] at stepped
    split at stepped
    · cases stepped
      rfl
    · split at stepped
      · cases stepped
        rfl
      · cases stepped
        exact (jobDestroy_ran _ _).trans (jobCompleted_ran _ _)
  · cases stepped

/-- The main loop is about to run the callback of a notification. -/
def Calls (s : State) (callback : Callback) : Prop :=
  ∃ id c, s.main = .removed id true c ∧ (s.results id).callback = callback ∧
    (c = false ∨ (s.results id).ChannelAnswer)

theorem dispatchCancelled_ran (stepped : dispatchCancelled s h pushed = some t) :
    t.ran = s.ran := by
  rw [dispatchCancelled] at stepped
  split at stepped
  · cases stepped
    rfl
  · split at stepped
    · cases stepped
      rfl
    · split at stepped
      · cases stepped
      · split at stepped
        · cases stepped
          exact jobGo_ran _ _ _
        · cases stepped
          rfl

theorem conclude_ran (stepped : conclude s pushed = some t) :
    t.ran = s.ran ∨ ∃ callback, Calls s callback ∧ t.ran = (runCallback s callback).ran := by
  rw [conclude] at stepped
  split at stepped
  · rename_i id valid cancelled at_
    dsimp only at stepped
    split at stepped
    · rename_i sync
      cases stepped
      rw [dispatchSyncJobCallback]
      cases valid with
      | false => exact Or.inl rfl
      | true =>
        simp only [Bool.not_true, Bool.false_eq_true, if_false]
        split
        · rename_i channel
          exact Or.inr ⟨_, ⟨id, cancelled, at_, rfl, Or.inr ⟨sync, by simp [channel, isChannel]⟩⟩, rfl⟩
        · rename_i channel
          exact Or.inr ⟨_, ⟨id, cancelled, at_, rfl, Or.inr ⟨sync, by simp [channel, isChannel]⟩⟩, rfl⟩
        · exact Or.inl rfl
        · cases cancelled with
          | false => exact Or.inr ⟨_, ⟨id, false, at_, rfl, Or.inl rfl⟩, rfl⟩
          | true => exact Or.inl rfl
        · exact Or.inl rfl
    · rw [dispatchJobCallback] at stepped
      cases valid with
      | false =>
        cases stepped
        exact Or.inl rfl
      | true =>
        cases cancelled with
        | true =>
          exact Or.inl (dispatchCancelled_ran (s := { s with main := .idle }) stepped)
        | false =>
          simp only [Bool.not_true, Bool.false_eq_true, if_false] at stepped
          split at stepped
          · cases stepped
            exact Or.inl rfl
          · cases stepped
            exact Or.inl rfl
          · cases stepped
            exact Or.inl rfl
          · cases stepped
            exact Or.inr ⟨_, ⟨id, false, at_, rfl, Or.inl rfl⟩, rfl⟩
  · cases stepped

theorem step_alive (stepped : step s e = some t) : s.fault = none := by
  rw [step.eq_def] at stepped
  split at stepped
  · cases stepped
  · rename_i alive
    simpa using alive

/-- The callbacks that a step runs, also one that ends the process. -/
theorem step_ran (stepped : step s e = some t) :
    t.ran = s.ran ∨ ∃ callback, Calls s callback ∧ t.ran = (runCallback s callback).ran := by
  rw [step.eq_def] at stepped
  split at stepped
  · cases stepped
  · cases e with
    | conclude pushed => exact conclude_ran stepped
    | launch type pushed => exact Or.inl (launch_ran stepped)
    | operate h type pushed => exact Or.inl (operate_ran stepped)
    | cancel h => exact Or.inl (by grind [cancel, State.fail, cancelCallbacks, State.modifyJob])
    | worker i ok handle =>
      obtain ⟨thread, _, stepped⟩ := Option.bind_eq_some_iff.mp stepped
      exact Or.inl (workerStep_ran stepped)
    | callModule i =>
      obtain ⟨h, r, _, stepped⟩ := runningStep_cases stepped
      left
      rw [callModule] at stepped
      split at stepped
      · cases stepped
        rfl
      · cases stepped
        exact notify_ran _ _ _ _ _ _ _
    | endExecute i =>
      obtain ⟨h, r, _, stepped⟩ := runningStep_cases stepped
      exact Or.inl (by grind [endExecute, State.fail, State.setPhase])
    | dispatch k => exact Or.inl (by grind [dispatch, callbackValid, State.fail])
    | removeCallback => exact Or.inl (by grind [removeCallback, State.fail])
    | acknowledge i => exact Or.inl (by grind [acknowledge, State.fail, State.setPhase])
    | quit => exact Or.inl (by grind [quit])
    | mapShutdown => exact Or.inl (by grind [mapShutdown])
    | callbackMapDestroy => exact Or.inl (by grind [callbackMapDestroy])

end Ran

section Suppressed

/-- A thread is at the operation `n` on the handle `h`, and the job has left the map without
being cancelled: a cancellation does not find it. -/
def OutOfReach (s : State) (n h : Nat) : Prop :=
  h ∉ s.jobMap.getD ∅ ∧ h ∈ s.live ∧ (s.jobs h).cancelled = false ∧
    ∃ thread ∈ s.threads, thread.job = h ∧ thread.phase.executing = true ∧
      ((s.jobs h).op.callback = .user n ∨ thread.phase.filled.map Prod.snd = some (.user n))

/-- No answer of a channel is on its way, and the job is within reach of a cancellation. -/
def Suppressible (s : State) (n h : Nat) : Prop :=
  (∀ id ∈ s.callbackMap.getD ∅, (s.results id).callback = .user n → ¬ (s.results id).ChannelAnswer) ∧
    ¬ OutOfReach s n h

instance (s : State) (n h : Nat) : Decidable (OutOfReach s n h) := inferInstanceAs (Decidable (_ ∧ _ ∧ _ ∧ _))

instance (s : State) (n h : Nat) : Decidable (Suppressible s n h) := inferInstanceAs (Decidable (_ ∧ _))

variable {n h : Nat} {s t : State}

theorem tracked_initial : Tracked initial := by
  refine ⟨?_, ?_, ?_, ?_, ?_, ?_, ?_⟩ <;> simp [initial, noJob, noResult]

theorem tracked_of_run (run : Run step (fun _ _ => True) initial s) (alive : s.fault = none) : Tracked s := by
  have tracked : s.fault = none → Tracked s := by
    apply run.keeps (P := fun s => s.fault = none → Tracked s)
    · exact fun _ => tracked_initial
    · intro s e t kept _ stepped fine
      obtain ⟨before, happened⟩ := step_happened stepped fine
      exact (kept before).happened happened
  exact tracked alive

theorem Phase.executing_of_filled {phase : Phase} {x : OpType × Callback} (filled : phase.filled = some x) :
    phase.executing = true := by
  cases phase with
  | queued | entered | executed | leaving _ | gone => cases filled
  | running _ | adding _ _ | idled _ | waiting _ | signalled _ => rfl

/-- The callbacks of the handle are cancelled: what is left are the jobs. -/
theorem Tracked.silenced (tracked : Tracked s) (owner : s.operations[n]? = some h) (free : s.main = .idle)
    (answers : ∀ id ∈ s.callbackMap.getD ∅, (s.results id).callback = .user n → ¬ (s.results id).ChannelAnswer)
    (job : Exposed s h → (s.jobs h).op.callback = .user n → (s.jobs h).cancelled = true)
    (filled : ∀ thread ∈ s.threads, ∀ type, thread.job = h → h ∈ s.live →
      thread.phase.filled = some (type, .user n) → (s.jobs h).cancelled = true):
    Silenced n h (Async.cancelCallbacks s h) := by
  have mine : ∀ {g : Nat}, s.operations[n]? = some g → g = h := by
    intro g here
    rw [owner] at here
    exact (Option.some.inj here).symm
  refine ⟨tracked.cancelCallbacks h, owner, ?_, ?_, ?_, ?_⟩
  · intro id inside same
    have marked := cancelCallbacks_marked s h id
    rw [marked.callback] at same
    refine ⟨?_, fun here => answers id inside same (marked.channelAnswer.mp here)⟩
    have at_ := mine (tracked.result id n same)
    simp only [Async.cancelCallbacks]
    rw [if_pos ⟨inside, at_⟩]
  · intro g open_ same
    obtain rfl := mine (tracked.job g n same)
    exact job open_ same
  · intro thread inside type alive here
    obtain rfl := mine (tracked.filled thread inside type n here)
    exact filled thread inside type rfl alive here
  · intro id c at_
    have idle : (Async.cancelCallbacks s h).main = .idle := free
    rw [idle] at at_
    rcases at_ with here | here <;> cases here

theorem Silenced.cancelled (run : Run step (fun _ _ => True) initial s) (owner : s.operations[n]? = some h)
    (free : s.main = .idle) (fits : Suppressible s n h) (stepped : step s (.cancel h) = some t)
    (fine : t.fault = none) : Silenced n h t := by
  obtain ⟨alive, happened⟩ := step_happened stepped fine
  have tracked := tracked_of_run run alive
  cases happened with
  | worked _ _ _ steps _ => simp at steps
  | cancelledCallbacks _ gone =>
    have outside : h ∉ s.jobMap.getD ∅ := by
      rw [← getJob_iff, gone]
      simp
    have reached : ∀ thread ∈ s.threads, thread.job = h → h ∈ s.live → thread.phase.executing = true →
        ((s.jobs h).op.callback = .user n ∨ thread.phase.filled.map Prod.snd = some (.user n)) →
          (s.jobs h).cancelled = true := by
      intro thread inside job live executing serves
      by_contra uncancelled
      exact fits.2 ⟨outside, live, by simpa using uncancelled, thread, inside, job, executing, serves⟩
    apply tracked.silenced owner free fits.1
    · rintro ⟨live, there | ⟨thread, inside, job, executing⟩⟩ same
      · exact absurd there outside
      · exact reached thread inside job live executing (Or.inl same)
    · intro thread inside type job live filled
      exact reached thread inside job live (Phase.executing_of_filled filled) (Or.inr (by simp [filled]))
  | cancelledJob _ _ _ =>
    exact (tracked.cancelJob h).silenced owner free fits.1 (fun _ _ => cancelJob_self s h)
      (fun _ _ _ _ _ _ => cancelJob_self s h)

theorem Silenced.not_called (silenced : Silenced n h s) (calls : Calls s callback) :
    callback ≠ .user n := by
  obtain ⟨id, c, at_, rfl, answers⟩ := calls
  intro same
  obtain ⟨cancelled, channel⟩ := (silenced.main id c (Or.inr at_)).2 same
  rcases answers with uncancelled | answer
  · rw [cancelled] at uncancelled
    cases uncancelled
  · exact channel answer

theorem count_runCallback (other : callback ≠ .user n) :
    (runCallback s callback).ran.count n = s.ran.count n := by
  cases callback with
  | emptyClose => rfl
  | module => rfl
  | user m =>
    have apart : m ≠ n := by
      rintro rfl
      exact other rfl
    simp [runCallback, apart]

/-- A cancellation from the main loop suppresses the callback of the operation, whatever the
threads, the main loop and the user do next, if no answer of a channel is on its way and the job
is within its reach. -/
theorem cancel_suppresses (s u t : State) (n h : Nat) (run : Run step (fun _ _ => True) initial s)
    (started : s.operations[n]? = some h) (free : s.main = .idle) (fits : Suppressible s n h)
    (cancelled : step s (.cancel h) = some u) (later : Run step (fun _ e => leavesAlone h e) u t) :
    t.ran.count n = s.ran.count n := by
  have kept : t.ran.count n = s.ran.count n ∧ (t.fault = none → Silenced n h t) := by
    apply later.keeps (P := fun t => t.ran.count n = s.ran.count n ∧ (t.fault = none → Silenced n h t))
    · refine ⟨?_, Silenced.cancelled run started free fits cancelled⟩
      rcases step_ran cancelled with same | ⟨_, ⟨_, _, at_, _⟩, _⟩
      · rw [same]
      · rw [free] at at_
        cases at_
    · rintro v e w ⟨same, silenced⟩ leaves stepped
      have alive : v.fault = none := step_alive stepped
      refine ⟨?_, fun fine => (silenced alive).happened leaves (step_happened stepped fine).2⟩
      rcases step_ran stepped with quiet | ⟨callback, calls, ran⟩
      · rw [quiet, same]
      · rw [ran, count_runCallback ((silenced alive).not_called calls), same]
  exact kept.1

def isDispatch : Event → Bool
  | .dispatch _ => true
  | _ => false

/-- The main loop dispatches what comes first. -/
def dispatched : List Event := [.dispatch 0, .removeCallback, .conclude true]

/-- The information about a file is cancelled when its notification has been added. -/
theorem cancel_suppresses_info :
    ∃ s u t : State, Run step (fun _ _ => True) initial s ∧ step s (.cancel 1) = some u ∧
      s.callbackMap = some {1} ∧ Run step (fun _ e => leavesAlone 1 e) u t ∧ t.callbackMap = some ∅ ∧
        t.ran.count 0 = s.ran.count 0 := by
  have seen : ((.launch .getFileInfo true :: List.replicate 5 (.worker 0 true true)).foldlM
      (guarded step fun _ _ => True) initial).bind (fun s => (step s (.cancel 1)).bind fun u =>
        (dispatched.foldlM (guarded step fun _ e => leavesAlone 1 e) u).map fun t =>
          ((s.operations[0]?, s.main, decide (Suppressible s 0 1)), s.callbackMap, t.callbackMap)) =
            some ((some 1, .idle, true), some {1}, some ∅) := by
    decide +kernel
  obtain ⟨s, before, seen⟩ := Option.bind_eq_some_iff.mp seen
  obtain ⟨u, stepped, seen⟩ := Option.bind_eq_some_iff.mp seen
  obtain ⟨t, after, values⟩ := Option.map_eq_some_iff.mp seen
  simp only [Prod.mk.injEq, decide_eq_true_eq] at values
  obtain ⟨⟨started, free, fits⟩, pending, removed⟩ := values
  have run := Run.of_foldlM _ before
  have later := Run.of_foldlM _ after
  exact ⟨s, u, t, run, stepped, pending, later, removed, cancel_suppresses s u t 0 1 run started free fits stepped later⟩

/-- A file is opened as a channel and cancelled before anything is dispatched; the dispatch of
the answer still runs the callback. -/
theorem cancel_channel_runs :
    ¬ ∀ s u t : State, ∀ n h : Nat, Run step (fun _ e => isDispatch e = false) initial s →
      s.operations[n]? = some h → s.main = .idle → step s (.cancel h) = some u →
        Run step (fun _ e => leavesAlone h e) u t → t.ran.count n = s.ran.count n := by
  intro suppressed
  have seen : ((.launch .openAsChannel true :: List.replicate 4 (.worker 0 true true)).foldlM
      (guarded step fun _ e => isDispatch e = false) initial).bind (fun s => (step s (.cancel 1)).bind fun u =>
        (dispatched.foldlM (guarded step fun _ e => leavesAlone 1 e) u).map fun t =>
          ((s.operations[0]?, s.main), s.ran, t.ran)) = some ((some 1, .idle), [], [0]) := by
    decide +kernel
  obtain ⟨s, before, seen⟩ := Option.bind_eq_some_iff.mp seen
  obtain ⟨u, stepped, seen⟩ := Option.bind_eq_some_iff.mp seen
  obtain ⟨t, after, values⟩ := Option.map_eq_some_iff.mp seen
  simp only [Prod.mk.injEq] at values
  obtain ⟨⟨started, free⟩, none, ran⟩ := values
  have same := suppressed s u t 0 1 (Run.of_foldlM _ before) started free stepped (Run.of_foldlM _ after)
  rw [none, ran] at same
  cases same

end Suppressed

end GnomeVfs.Async
