import GnomeVfs.AsyncJob

/- What the steps of the asynchronous jobs can do, said once for all invariants. Only steps that
the process survives are of interest. -/
namespace GnomeVfs.Async

@[simp] theorem fail_fault (s : State) (fault : Fault) : (s.fail fault).fault ≠ none := by
  rw [State.fail]
  cases s.fault <;> simp

variable {h : Nat}

theorem getJob_iff {s : State} : s.getJob h = true ↔ h ∈ s.jobMap.getD ∅ := by simp [State.getJob]

theorem getD_given_up (m : Finset Nat) (down : Bool) :
    (if down ∧ m = ∅ then none else some m).getD ∅ = m := by
  split
  · rename_i empty
    exact empty.2.symm
  · rfl

theorem getD_map_erase (map : Option (Finset Nat)) (h : Nat) :
    (map.map (·.erase h)).getD ∅ = (map.getD ∅).erase h := by
  cases map <;> rfl

theorem mem_set_of_mem {α : Type} {l : List α} {i : Nat} {a b c : α} (found : l[i]? = some b) (member : a ∈ l)
    (other : a ≠ b) : a ∈ l.set i c := by
  obtain ⟨j, here⟩ := List.mem_iff_getElem?.mp member
  have apart : i ≠ j := by
    rintro rfl
    rw [found] at here
    exact other (Option.some.inj here).symm
  apply List.mem_iff_getElem?.mpr
  exact ⟨j, by rw [List.getElem?_set_ne apart, here]⟩

/-- What the threads of the pool keep of a job. -/
structure Job.Kept (a b : Job) : Prop where
  cancelled : b.cancelled = a.cancelled
  callback : b.op.callback = a.op.callback
  opens : opensJob b.op.type = true → opensJob a.op.type = true

theorem Job.Kept.refl (a : Job) : a.Kept a := ⟨rfl, rfl, id⟩

theorem recordResult_kept (kind : OpType) (ok handle : Bool) (job : Job) :
    job.Kept (recordResult kind ok handle job) := by
  cases kind <;> exact ⟨rfl, rfl, by simp [recordResult, opensJob]⟩

/-- The notification that was filled in ahead. -/
def Phase.filled : Phase → Option (OpType × Callback)
  | .running r | .adding _ r | .idled r | .waiting r | .signalled r => r.result
  | _ => none

/-- The thread has entered the job and may still notify the main loop. -/
def Phase.executing : Phase → Bool
  | .entered | .running _ | .adding _ _ | .idled _ | .waiting _ | .signalled _ => true
  | _ => false

/-- From one phase to the next. Only a thread that is queued enters a job, and only if the map has
it; only a job that is not cancelled has a notification filled in. -/
structure Advances (s : State) (thread : Thread) (phase : Phase) : Prop where
  stays : thread.phase ≠ .leaving true
  filled : ∀ x, phase.filled = some x → thread.phase.filled = some x ∨
    x = ((s.jobs thread.job).op.type, (s.jobs thread.job).op.callback) ∧
      (s.jobs thread.job).cancelled = false ∧ fillsFirst (s.jobs thread.job).op.type = true ∧
        thread.phase.executing = true
  executing : phase.executing = true → thread.phase.executing = true ∨ s.getJob thread.job = true

/-- The notification that a thread gives: the one that was filled in, or one for the operation
of the job, or one for a module. -/
def Gives (s : State) (thread : Thread) (type : OpType) (callback : Callback) : Prop :=
  callback = .module ∨ thread.phase.filled = some (type, callback) ∨
    callback = (s.jobs thread.job).op.callback

/-- A step of a thread of the pool. -/
inductive Worked (s : State) (i : Nat) (thread : Thread) : State → Prop where
  | bails (waits : thread.phase = .queued) :
      Worked s i thread (s.setPhase i thread.job .gone)
  | returns (ends : thread.phase = .leaving false) :
      Worked s i thread (s.setPhase i thread.job .gone)
  | moves (job : Job) (phase : Phase) (alive : thread.job ∈ s.live)
      (kept : (s.jobs thread.job).Kept job) (advances : Advances s thread phase)
      (quiet : ∀ id r, phase ≠ .adding id r) :
      Worked s i thread
        { s with jobs := Function.update s.jobs thread.job job, threads := s.threads.set i ⟨thread.job, phase⟩ }
  | refused (job : Job) (phase : Phase) (alive : thread.job ∈ s.live)
      (kept : (s.jobs thread.job).Kept job) (advances : Advances s thread phase)
      (quiet : ∀ id r, phase ≠ .adding id r) (up : s.shuttingDown = false)
      (cancelled : (s.jobs thread.job).cancelled = true) :
      Worked s i thread
        { s with
          jobs := Function.update s.jobs thread.job job
          threads := s.threads.set i ⟨thread.job, phase⟩
          nextCallback := s.nextCallback + 1
          callbackMap := some (s.callbackMap.getD ∅) }
  | added (job : Job) (r : Running) (type : OpType) (callback : Callback) (sync : Bool)
      (alive : thread.job ∈ s.live) (kept : (s.jobs thread.job).Kept job)
      (running : thread.phase.executing = true)
      (advances : Advances s thread (.adding (s.nextCallback + 1) r)) (up : s.shuttingDown = false)
      (uncancelled : (s.jobs thread.job).cancelled = false) (gives : Gives s thread type callback) :
      Worked s i thread
        { s with
          jobs := Function.update s.jobs thread.job job
          threads := s.threads.set i ⟨thread.job, .adding (s.nextCallback + 1) r⟩
          nextCallback := s.nextCallback + 1
          callbackMap := some (insert (s.nextCallback + 1) (s.callbackMap.getD ∅))
          results := Function.update s.results (s.nextCallback + 1)
            ⟨thread.job, false, type, callback, sync⟩ }
  | idles (id : Nat) (r : Running) (phase : Phase) (adds : thread.phase = .adding id r)
      (advances : Advances s thread phase) (quiet : ∀ id r, phase ≠ .adding id r) :
      Worked s i thread
        { s with idle := s.idle ++ [id], threads := s.threads.set i ⟨thread.job, phase⟩ }
  | frees (m : Finset Nat) (ends : thread.phase = .leaving true) (mapped : s.jobMap = some m)
      (alive : thread.job ∈ s.live) :
      Worked s i thread
        { s with
          jobMap := if s.shuttingDown ∧ m.erase thread.job = ∅ then none else some (m.erase thread.job)
          live := s.live.erase thread.job
          jobCount := s.jobCount - 1
          threads := s.threads.set i ⟨thread.job, .gone⟩ }

variable {type : OpType}

section Notify

variable {s t : State} {i : Nat} {thread : Thread} {r : Running}

theorem Advances.same_result {phase : Phase} (stays : thread.phase ≠ .leaving true)
    (filled : phase.filled = thread.phase.filled ∨ phase.filled = none)
    (executing : thread.phase.executing = true ∨ phase.executing = false) : Advances s thread phase := by
  refine ⟨stays, ?_, ?_⟩
  · intro x here
    rcases filled with same | nothing
    · exact Or.inl (same ▸ here)
    · rw [nothing] at here
      cases here
  · intro active
    rcases executing with before | after
    · exact Or.inl before
    · rw [after] at active
      cases active

theorem afterNotify_cases (sync : Bool) (r : Running) :
    afterNotify sync r = .running r ∨ afterNotify sync r = .executed := by
  rw [afterNotify]
  split
  · exact Or.inl rfl
  · exact Or.inr rfl

theorem Advances.afterNotify {sync : Bool} (stays : thread.phase ≠ .leaving true)
    (filled : thread.phase.filled = r.result) (executing : thread.phase.executing = true) :
    Advances s thread (Async.afterNotify sync r) := by
  rcases afterNotify_cases sync r with same | same
  · rw [same]
    exact .same_result stays (Or.inl filled.symm) (Or.inl executing)
  · rw [same]
    exact .same_result stays (Or.inr rfl) (Or.inr rfl)

theorem afterNotify_quiet (sync : Bool) (r : Running) (id : Nat) (other : Running) :
    afterNotify sync r ≠ .adding id other := by
  rcases afterNotify_cases sync r with same | same <;> simp [same]

/-- A notification of a running thread is refused or added. -/
theorem notify_worked {changed : State} {job : Job} {next : Running} {callback : Callback} {sync : Bool}
    (running : thread.phase = .running r) (same : next.result = r.result) (alive : thread.job ∈ s.live)
    (written : changed = { s with jobs := Function.update s.jobs thread.job job })
    (kept : (s.jobs thread.job).Kept job) (gives : Gives s thread type callback)
    (fine : (notify changed i thread.job next type callback sync).fault = none) :
    Worked s i thread (notify changed i thread.job next type callback sync) := by
  subst written
  have stays : thread.phase ≠ .leaving true := by simp [running]
  have executing : thread.phase.executing = true := by simp [running, Phase.executing]
  have filled : thread.phase.filled = next.result := by simp [running, Phase.filled, same]
  rw [notify, addCallback] at fine ⊢
  by_cases down : s.shuttingDown = true
  · simp only [if_pos down] at fine
    exact absurd fine (fail_fault _ _)
  · have up : s.shuttingDown = false := by simpa using down
    simp only [if_neg down, Function.update_self] at fine ⊢
    by_cases cancelled : job.cancelled = true
    · simp only [if_pos cancelled]
      exact .refused job _ alive kept (.afterNotify stays filled executing)
        (afterNotify_quiet sync next) up (kept.cancelled ▸ cancelled)
    · have uncancelled : job.cancelled = false := by simpa using cancelled
      simp only [if_neg cancelled]
      exact .added job next type callback sync alive kept executing
        (.same_result stays (Or.inl filled.symm) (Or.inl executing)) up (kept.cancelled ▸ uncancelled) gives

end Notify

section Threads

variable {s t : State} {i : Nat} {thread : Thread} {r : Running}

theorem begin_worked (waits : thread.phase = .queued) (stepped : begin s i thread.job = some t)
    (fine : t.fault = none) : Worked s i thread t := by
  rw [begin] at stepped
  split at stepped
  · cases stepped
    exact absurd fine (fail_fault _ _)
  · rename_i alive
    split at stepped
    · cases stepped
      exact .bails waits
    · rename_i found
      split at stepped
      · cases stepped
      · cases stepped
        have advances : Advances s thread .entered := by
          refine ⟨by simp [waits], by simp [Phase.filled], fun _ => Or.inr ?_⟩
          simpa using found
        exact .moves { s.jobs thread.job with locked := true } .entered (not_not.mp alive) ⟨rfl, rfl, id⟩ advances
          (by simp)

theorem execute_worked (entered : thread.phase = .entered) (stepped : execute s i thread.job = some t)
    (fine : t.fault = none) : Worked s i thread t := by
  rw [execute] at stepped
  split at stepped
  · cases stepped
    exact absurd fine (fail_fault _ _)
  · rename_i alive
    dsimp only at stepped
    split at stepped
    · have advances : Advances s thread .executed :=
        .same_result (by simp [entered]) (Or.inr rfl) (Or.inr rfl)
      split at stepped
      · cases stepped
        exact .moves _ .executed (not_not.mp alive) ⟨rfl, rfl, by simp [opensJob]⟩ advances (by simp)
      · cases stepped
        have shape := Worked.moves (i := i) (s.jobs thread.job) .executed (not_not.mp alive) (.refl _)
          advances (by simp)
        rwa [Function.update_eq_self] at shape
    · rename_i uncancelled
      cases stepped
      have advances : Advances s thread (.running ⟨(s.jobs thread.job).op.type,
          if fillsFirst (s.jobs thread.job).op.type then
            some ((s.jobs thread.job).op.type, (s.jobs thread.job).op.callback) else none, false⟩) := by
        refine ⟨by simp [entered], ?_, fun _ => Or.inl (by simp [entered, Phase.executing])⟩
        intro x here
        simp only [Phase.filled] at here
        split at here
        · rename_i first
          cases here
          exact Or.inr ⟨rfl, by simpa using uncancelled, first, by simp [entered, Phase.executing]⟩
        · cases here
      have shape := Worked.moves (i := i) (s.jobs thread.job) _ (not_not.mp alive) (.refl _) advances (by simp)
      rwa [Function.update_eq_self] at shape

theorem report_worked {ok handle : Bool} (running : thread.phase = .running r)
    (stepped : report s i thread.job r ok handle = some t) (fine : t.fault = none) :
    Worked s i thread t := by
  rw [report] at stepped
  split at stepped
  · cases stepped
  · split at stepped
    · cases stepped
      exact absurd fine (fail_fault _ _)
    · rename_i alive
      have kept := recordResult_kept r.kind ok handle (s.jobs thread.job)
      cases stepped
      refine notify_worked running ?_ (not_not.mp alive) rfl kept ?_ fine
      · rfl
      cases built : r.result with
      | none =>
        right
        right
        simp [State.modifyJob, kept.callback]
      | some x =>
        right
        left
        simp [running, Phase.filled, built]

theorem callModule_worked (running : thread.phase = .running r) (stepped : callModule s i thread.job r = some t)
    (fine : t.fault = none) : Worked s i thread t := by
  rw [callModule] at stepped
  split at stepped
  · cases stepped
    exact absurd fine (fail_fault _ _)
  · rename_i alive
    cases stepped
    refine notify_worked running rfl (not_not.mp alive) ?_ (.refl _) (Or.inl rfl) fine
    rw [Function.update_eq_self]

theorem endExecute_worked (running : thread.phase = .running r) (stepped : endExecute s i thread.job r = some t)
    (fine : t.fault = none) : Worked s i thread t := by
  rw [endExecute] at stepped
  split at stepped
  · cases stepped
    exact absurd fine (fail_fault _ _)
  · rename_i alive
    split at stepped
    · cases stepped
      have advances : Advances s thread .executed :=
        .same_result (by simp [running]) (Or.inr rfl) (Or.inr rfl)
      have shape := Worked.moves (i := i) (s.jobs thread.job) .executed (not_not.mp alive) (.refl _)
        advances (by simp)
      rwa [Function.update_eq_self] at shape
    · cases stepped

theorem idleAdd_worked {id : Nat} (adds : thread.phase = .adding id r)
    (stepped : idleAdd s i thread.job id r = some t) : Worked s i thread t := by
  have stays : thread.phase ≠ .leaving true := by simp [adds]
  have filled : thread.phase.filled = r.result := by simp [adds, Phase.filled]
  have executing : thread.phase.executing = true := by simp [adds, Phase.executing]
  cases stepped
  refine .idles id r _ adds ?_ ?_
  · dsimp only
    split
    · exact .same_result stays (Or.inl filled.symm) (Or.inl executing)
    · exact .afterNotify stays filled executing
  · dsimp only
    split
    · simp
    · exact afterNotify_quiet false r

theorem condWait_worked (idled : thread.phase = .idled r) (stepped : condWait s i thread.job r = some t)
    (fine : t.fault = none) : Worked s i thread t := by
  rw [condWait] at stepped
  split at stepped
  · cases stepped
    exact absurd fine (fail_fault _ _)
  · rename_i alive
    cases stepped
    have advances : Advances s thread (.waiting r) :=
      .same_result (by simp [idled]) (Or.inl (by simp [idled, Phase.filled]))
        (Or.inl (by simp [idled, Phase.executing]))
    exact .moves { s.jobs thread.job with locked := false } (.waiting r) (not_not.mp alive)
      ⟨rfl, rfl, id⟩ advances (by simp)

theorem resume_worked (signalled : thread.phase = .signalled r) (stepped : resume s i thread.job r = some t)
    (fine : t.fault = none) : Worked s i thread t := by
  rw [resume] at stepped
  split at stepped
  · cases stepped
    exact absurd fine (fail_fault _ _)
  · rename_i alive
    split at stepped
    · cases stepped
    · cases stepped
      have advances : Advances s thread (.running r) :=
        .same_result (by simp [signalled]) (Or.inl (by simp [signalled, Phase.filled]))
          (Or.inl (by simp [signalled, Phase.executing]))
      exact .moves { s.jobs thread.job with locked := true } (.running r) (not_not.mp alive)
        ⟨rfl, rfl, id⟩ advances (by simp)

theorem complete_worked (executed : thread.phase = .executed) (stepped : complete s i thread.job = some t)
    (fine : t.fault = none) : Worked s i thread t := by
  rw [complete] at stepped
  split at stepped
  · cases stepped
    exact absurd fine (fail_fault _ _)
  · rename_i alive
    split at stepped
    · cases stepped
      exact absurd fine (fail_fault _ _)
    · rename_i done _
      cases stepped
      have advances : Advances s thread (.leaving done) :=
        .same_result (by simp [executed]) (Or.inr rfl) (Or.inr rfl)
      exact .moves { s.jobs thread.job with locked := false } (.leaving done) (not_not.mp alive)
        ⟨rfl, rfl, id⟩ advances (by simp)

theorem jobDestroy_jobCompleted (alive : h ∈ s.live) (fine : (jobDestroy (jobCompleted s h) h).fault = none) :
    ∃ m, s.jobMap = some m ∧ jobDestroy (jobCompleted s h) h =
      { s with
        jobMap := if s.shuttingDown ∧ m.erase h = ∅ then none else some (m.erase h)
        live := s.live.erase h
        jobCount := s.jobCount - 1 } := by
  cases mapped : s.jobMap with
  | none =>
    have still : h ∈ (s.fail .assertion).live := alive
    rw [jobCompleted, mapped, jobDestroy, if_pos still] at fine
    exact absurd fine (fail_fault s .assertion)
  | some m =>
    refine ⟨m, rfl, ?_⟩
    rw [jobCompleted, mapped]
    exact if_pos alive

theorem leave_worked {done : Bool} (ends : thread.phase = .leaving done)
    (stepped : leave s i thread.job done = some t) (fine : t.fault = none) : Worked s i thread t := by
  rw [leave] at stepped
  cases done with
  | false =>
    cases stepped
    exact .returns ends
  | true =>
    simp only [Bool.not_true, Bool.false_eq_true, if_false] at stepped
    split at stepped
    · cases stepped
      exact absurd fine (fail_fault _ _)
    · rename_i alive
      cases stepped
      obtain ⟨m, mapped, freed⟩ := jobDestroy_jobCompleted (not_not.mp alive) fine
      rw [freed]
      exact .frees m ends mapped (not_not.mp alive)

theorem workerStep_worked {ok handle : Bool} (stepped : workerStep s i thread ok handle = some t)
    (fine : t.fault = none) : Worked s i thread t := by
  rw [workerStep] at stepped
  split at stepped
  · rename_i waits
    exact begin_worked waits stepped fine
  · rename_i entered
    exact execute_worked entered stepped fine
  · rename_i running
    exact report_worked running stepped fine
  · rename_i adds
    exact idleAdd_worked adds stepped
  · rename_i idled
    exact condWait_worked idled stepped fine
  · cases stepped
  · rename_i signalled
    exact resume_worked signalled stepped fine
  · rename_i executed
    exact complete_worked executed stepped fine
  · rename_i ends
    exact leave_worked ends stepped fine
  · cases stepped

theorem runningStep_cases {f : Nat → Running → Option State} (stepped : runningStep s i f = some t) :
    ∃ h r, s.threads[i]? = some ⟨h, .running r⟩ ∧ f h r = some t := by
  rw [runningStep] at stepped
  split at stepped
  · rename_i h r found
    exact ⟨h, r, found, stepped⟩
  · cases stepped

end Threads

/-- What `_gnome_vfs_job_go` does: the job waits for a thread, or it is freed. -/
inductive Went (s : State) (h : Nat) : State → Prop where
  | queued (serves : s.quitting = false) : Went s h { s with threads := s.threads ++ [⟨h, .queued⟩] }
  | destroyed (quits : s.quitting = true) (alive : h ∈ s.live) :
      Went s h { s with live := s.live.erase h, jobCount := s.jobCount - 1 }
  | dropped (m : Finset Nat) (serves : s.quitting = false) (mapped : s.jobMap = some m) (alive : h ∈ s.live) :
      Went s h
        { s with
          threads := s.threads ++ [⟨h, .queued⟩]
          jobMap := if s.shuttingDown ∧ m.erase h = ∅ then none else some (m.erase h)
          live := s.live.erase h
          jobCount := s.jobCount - 1 }

variable {pushed : Bool}

theorem jobGo_went {s : State} (alive : h ∈ s.live) (fine : (jobGo s h pushed).fault = none) :
    Went s h (jobGo s h pushed) := by
  rw [jobGo] at fine ⊢
  by_cases quits : s.quitting = true
  · rw [if_pos quits, jobDestroy, if_pos alive]
    exact .destroyed quits alive
  · have serves : s.quitting = false := by simpa using quits
    rw [if_neg quits] at fine ⊢
    cases pushed with
    | true => exact .queued serves
    | false =>
      have still : h ∈ ({ s with threads := s.threads ++ [Thread.mk h .queued] } : State).live := alive
      obtain ⟨m, mapped, freed⟩ := jobDestroy_jobCompleted still fine
      dsimp only
      rw [if_neg (by simp), freed]
      exact .dropped m serves mapped alive

/-- A notification whose callback is run whether or not it was cancelled. -/
def NotifyResult.ChannelAnswer (x : NotifyResult) : Prop := x.sync = true ∧ isChannel x.type = true

instance (x : NotifyResult) : Decidable x.ChannelAnswer := inferInstanceAs (Decidable (_ ∧ _))

/-- Everything that can happen and does not end the process. -/
inductive Happened (s : State) : Event → State → Prop where
  | launched (type : OpType) (pushed : Bool) {t : State} (up : s.shuttingDown = false)
      (went : Went (jobNew s type) (s.nextJob + 1) t) : Happened s (.launch type pushed) t
  | unknown (h : Nat) (type : OpType) (pushed : Bool) (gone : s.getJob h = false) :
      Happened s (.operate h type pushed) s
  | operated (h : Nat) (type : OpType) (pushed : Bool) {t : State} (uses : usesHandle type = true)
      (found : s.getJob h = true) (alive : h ∈ s.live)
      (went : Went { jobSet s h type (.user s.operations.length) with operations := s.operations ++ [h] }
        h t) : Happened s (.operate h type pushed) t
  | cancelledCallbacks (h : Nat) (gone : s.getJob h = false) :
      Happened s (.cancel h) (cancelCallbacks s h)
  | cancelledJob (h : Nat) (found : s.getJob h = true) (alive : h ∈ s.live) :
      Happened s (.cancel h) (cancelCallbacks (s.modifyJob h fun job =>
        { job with cancelled := true, op := { job.op with cancellation := true } }) h)
  | worked {e : Event} (i : Nat) (thread : Thread) {t : State} (found : s.threads[i]? = some thread)
      (steps : (∃ ok handle, e = .worker i ok handle) ∨ e = .callModule i ∨ e = .endExecute i)
      (worked : Worked s i thread t) : Happened s e t
  | dispatched (k id : Nat) (valid cancelled : Bool) (free : s.main = .idle)
      (outside : s.shutdown ≠ .mapDown) (queued : s.idle[k]? = some id)
      (looked : (s.callbackMap = none ∧ s.shuttingDown = true ∧ valid = false ∧ cancelled = false) ∨
        ∃ m, s.callbackMap = some m ∧ valid = decide (id ∈ m) ∧
          cancelled = decide (id ∈ m ∧ (s.results id).cancelled = true)) :
      Happened s (.dispatch k)
        { s with idle := s.idle.eraseIdx k, main := .checked id valid cancelled }
  | removed (id : Nat) (valid cancelled : Bool) (m : Finset Nat) (at_ : s.main = .checked id valid cancelled)
      (mapped : s.callbackMap = some m) :
      Happened s .removeCallback
        { s with callbackMap := some (m.erase id), main := .removed id valid cancelled }
  | discarded (pushed : Bool) (id : Nat) (cancelled : Bool) (at_ : s.main = .removed id false cancelled) :
      Happened s (.conclude pushed) { s with main := .idle }
  | ignored (pushed : Bool) (id : Nat) (at_ : s.main = .removed id true true)
      (oneway : (s.results id).sync = false) (gone : s.getJob (s.results id).jobHandle = false) :
      Happened s (.conclude pushed) { s with main := .idle }
  | closed (pushed : Bool) (id : Nat) {t : State} (at_ : s.main = .removed id true true)
      (oneway : (s.results id).sync = false) (found : s.getJob (s.results id).jobHandle = true)
      (alive : (s.results id).jobHandle ∈ s.live)
      (opened : opensJob (s.jobs (s.results id).jobHandle).op.type = true)
      (handle : (s.jobs (s.results id).jobHandle).handle = true)
      (went : Went (jobSet { s with main := .idle } (s.results id).jobHandle .close .emptyClose)
        (s.results id).jobHandle t) : Happened s (.conclude pushed) t
  | unmapped (pushed : Bool) (id : Nat) (at_ : s.main = .removed id true true)
      (oneway : (s.results id).sync = false) (found : s.getJob (s.results id).jobHandle = true)
      (alive : (s.results id).jobHandle ∈ s.live)
      (other : ¬ (opensJob (s.jobs (s.results id).jobHandle).op.type = true ∧
        (s.jobs (s.results id).jobHandle).handle = true)) :
      Happened s (.conclude pushed)
        { s with main := .idle, jobMap := s.jobMap.map (·.erase (s.results id).jobHandle) }
  | called (pushed : Bool) (id : Nat) (at_ : s.main = .removed id true false)
      (oneway : (s.results id).sync = false) :
      Happened s (.conclude pushed) (runCallback { s with main := .idle } (s.results id).callback)
  | answered (pushed : Bool) (id : Nat) (cancelled : Bool) (at_ : s.main = .removed id true cancelled)
      (answers : cancelled = false ∨ (s.results id).ChannelAnswer) :
      Happened s (.conclude pushed)
        { runCallback { s with main := .idle } (s.results id).callback with acks := id :: s.acks }
  | silenced (pushed : Bool) (id : Nat) (cancelled : Bool) (at_ : s.main = .removed id true cancelled) :
      Happened s (.conclude pushed) { s with main := .idle, acks := id :: s.acks }
  | acknowledged (i id : Nat) (rest : List Nat) (h : Nat) (r : Running) (at_ : s.acks = id :: rest)
      (found : s.threads[i]? = some ⟨h, .waiting r⟩) :
      Happened s (.acknowledge i) { s with acks := rest, threads := s.threads.set i ⟨h, .signalled r⟩ }
  | unheard (i id : Nat) (rest : List Nat) (at_ : s.acks = id :: rest) :
      Happened s (.acknowledge i) { s with acks := rest }
  | quits (waits : s.shutdown = .notCalled) :
      Happened s .quit { s with quitting := true, shutdown := .waiting }
  | mapGone (none : s.jobMap = none) (waits : s.shutdown = .waiting) (count : s.jobCount = 0) (answered : s.acks = [])
      (free : s.main = .idle) : Happened s .mapShutdown { s with shutdown := .mapDown }
  | mapDown (m : Finset Nat) (mapped : s.jobMap = some m) (waits : s.shutdown = .waiting)
      (count : s.jobCount = 0) (answered : s.acks = []) (free : s.main = .idle) :
      Happened s .mapShutdown
        { s with
          shuttingDown := true
          jobMap := if m = ∅ then Option.none else some m
          shutdown := .mapDown }
  | callbacksDown (waits : s.shutdown = .mapDown) :
      Happened s .callbackMapDestroy { s with callbackMap := none, shutdown := .done }

section Happened

variable {s t : State}

theorem launch_happened (stepped : launch s type pushed = some t) (fine : t.fault = none) :
    Happened s (.launch type pushed) t := by
  rw [launch] at stepped
  split at stepped
  · cases stepped
  · split at stepped
    · cases stepped
      exact absurd fine (fail_fault _ _)
    · rename_i up
      cases stepped
      have alive : s.nextJob + 1 ∈ (jobNew s type).live := by simp [jobNew]
      exact .launched type pushed (by simpa using up) (jobGo_went alive fine)

theorem operate_happened (stepped : operate s h type pushed = some t) (fine : t.fault = none) :
    Happened s (.operate h type pushed) t := by
  rw [operate] at stepped
  split at stepped
  · cases stepped
  · rename_i uses
    split at stepped
    · rename_i gone
      cases stepped
      exact .unknown h type pushed (by simpa using gone)
    · rename_i found
      split at stepped
      · cases stepped
        exact absurd fine (fail_fault _ _)
      · rename_i alive
        split at stepped
        · cases stepped
        · split at stepped
          · cases stepped
          · cases stepped
            have still := not_not.mp alive
            exact .operated h type pushed (by simpa using uses) (by simpa using found) still
              (jobGo_went still fine)

theorem cancel_happened (stepped : cancel s h = some t) (fine : t.fault = none) :
    Happened s (.cancel h) t := by
  rw [cancel] at stepped
  split at stepped
  · rename_i gone
    cases stepped
    exact .cancelledCallbacks h (by simpa using gone)
  · rename_i found
    split at stepped
    · cases stepped
      exact absurd fine (fail_fault _ _)
    · rename_i alive
      cases stepped
      exact .cancelledJob h (by simpa using found) (not_not.mp alive)

theorem dispatch_happened {k : Nat} (stepped : dispatch s k = some t) (fine : t.fault = none) :
    Happened s (.dispatch k) t := by
  rw [dispatch] at stepped
  split at stepped
  · cases stepped
  · rename_i free
    rw [not_or, not_not] at free
    split at stepped
    · cases stepped
    · rename_i id queued
      cases stepped
      rw [callbackValid] at fine ⊢
      cases mapped : s.callbackMap with
      | none =>
        simp only [mapped] at fine ⊢
        split
        · rename_i up
          rw [if_pos up] at fine
          exact absurd fine (fail_fault _ _)
        · rename_i down
          rw [← mapped]
          exact .dispatched k id false false free.1 free.2 queued
            (Or.inl ⟨mapped, by simpa using down, rfl, rfl⟩)
      | some m =>
        simp only
        rw [← mapped]
        exact .dispatched k id _ _ free.1 free.2 queued (Or.inr ⟨m, mapped, rfl, rfl⟩)

theorem removeCallback_happened (stepped : removeCallback s = some t) (fine : t.fault = none) :
    Happened s .removeCallback t := by
  rw [removeCallback] at stepped
  split at stepped
  · rename_i id valid cancelled here
    split at stepped
    · cases stepped
      exact absurd fine (fail_fault _ _)
    · rename_i m mapped
      cases stepped
      exact .removed id valid cancelled m here mapped
  · cases stepped

theorem dispatchCancelled_happened {id : Nat} (at_ : s.main = .removed id true true)
    (oneway : (s.results id).sync = false)
    (stepped : dispatchCancelled { s with main := .idle } (s.results id).jobHandle pushed = some t)
    (fine : t.fault = none) : Happened s (.conclude pushed) t := by
  rw [dispatchCancelled] at stepped
  split at stepped
  · rename_i gone
    cases stepped
    exact .ignored pushed id at_ oneway (by simpa [State.getJob] using gone)
  · rename_i found
    have found : s.getJob (s.results id).jobHandle = true := by simpa [State.getJob] using found
    split at stepped
    · cases stepped
      exact absurd fine (fail_fault _ _)
    · rename_i alive
      have alive := not_not.mp alive
      split at stepped
      · cases stepped
      · split at stepped
        · rename_i opened
          cases stepped
          exact .closed pushed id at_ oneway found alive opened.1 opened.2 (jobGo_went alive fine)
        · rename_i other
          cases stepped
          exact .unmapped pushed id at_ oneway found alive other

theorem conclude_happened (stepped : conclude s pushed = some t) (fine : t.fault = none) :
    Happened s (.conclude pushed) t := by
  rw [conclude] at stepped
  split at stepped
  · rename_i id valid cancelled at_
    dsimp only at stepped
    by_cases sync : (s.results id).sync = true
    · rw [if_pos sync] at stepped
      cases stepped
      rw [dispatchSyncJobCallback] at fine ⊢
      cases valid with
      | false => exact absurd fine (fail_fault _ _)
      | true =>
        simp only [Bool.not_true, Bool.false_eq_true, if_false] at fine ⊢
        split
        · rename_i channel
          exact .answered pushed id cancelled at_ (Or.inr ⟨sync, by simp [channel, isChannel]⟩)
        · rename_i channel
          exact .answered pushed id cancelled at_ (Or.inr ⟨sync, by simp [channel, isChannel]⟩)
        · exact .silenced pushed id cancelled at_
        · cases cancelled with
          | false => exact .answered pushed id false at_ (Or.inl rfl)
          | true => exact .silenced pushed id true at_
        · rename_i h₁ h₂ h₃ h₄
          split at fine
          · rename_i same
            exact absurd same h₁
          · rename_i same
            exact absurd same h₂
          · rename_i same
            exact absurd same h₃
          · rename_i same
            exact absurd same h₄
          · exact absurd fine (fail_fault _ _)
    · rw [if_neg sync] at stepped
      have oneway : (s.results id).sync = false := by simpa using sync
      rw [dispatchJobCallback] at stepped
      cases valid with
      | false =>
        cases stepped
        exact .discarded pushed id cancelled at_
      | true =>
        cases cancelled with
        | true => exact dispatchCancelled_happened at_ oneway stepped fine
        | false =>
          simp only [Bool.not_true, Bool.false_eq_true, if_false] at stepped
          split at stepped
          · cases stepped
            exact absurd fine (fail_fault _ _)
          · cases stepped
            exact absurd fine (fail_fault _ _)
          · cases stepped
            exact absurd fine (fail_fault _ _)
          · cases stepped
            exact .called pushed id at_ oneway
  · cases stepped

theorem acknowledge_happened {i : Nat} (stepped : acknowledge s i = some t) (fine : t.fault = none) :
    Happened s (.acknowledge i) t := by
  rw [acknowledge] at stepped
  split at stepped
  · rename_i id rest _ at_
    dsimp only at stepped
    split at stepped
    · cases stepped
      exact absurd fine (fail_fault _ _)
    · split at stepped
      · cases stepped
        exact absurd fine (fail_fault _ _)
      · split at stepped
        · cases stepped
        · split at stepped
          · rename_i h r found
            split at stepped
            · rename_i same
              cases stepped
              rw [same] at found
              exact .acknowledged i id rest _ r at_ found
            · cases stepped
          · split at stepped
            · cases stepped
              exact .unheard i id rest at_
            · cases stepped
  · cases stepped

theorem shutdown_happened :
    (quit s = some t → Happened s .quit t) ∧ (mapShutdown s = some t → Happened s .mapShutdown t) ∧
      (callbackMapDestroy s = some t → Happened s .callbackMapDestroy t) := by
  refine ⟨?_, ?_, ?_⟩
  · intro stepped
    rw [quit] at stepped
    split at stepped
    · rename_i ready
      cases stepped
      exact .quits ready.1
    · cases stepped
  · intro stepped
    rw [mapShutdown] at stepped
    split at stepped
    · rename_i ready
      split at stepped
      · rename_i nothing
        cases stepped
        exact .mapGone nothing ready.1 ready.2.2.2 ready.2.2.1 ready.2.1
      · rename_i m mapped
        cases stepped
        exact .mapDown m mapped ready.1 ready.2.2.2 ready.2.2.1 ready.2.1
    · cases stepped
  · intro stepped
    rw [callbackMapDestroy] at stepped
    split at stepped
    · rename_i waits
      cases stepped
      exact .callbacksDown waits
    · cases stepped

theorem step_happened {e : Event} (stepped : step s e = some t) (fine : t.fault = none) :
    s.fault = none ∧ Happened s e t := by
  rw [step.eq_def] at stepped
  split at stepped
  · cases stepped
  · rename_i alive
    refine ⟨by simpa using alive, ?_⟩
    cases e with
    | launch type pushed => exact launch_happened stepped fine
    | operate h type pushed => exact operate_happened stepped fine
    | cancel h => exact cancel_happened stepped fine
    | worker i ok handle =>
      obtain ⟨thread, found, stepped⟩ := Option.bind_eq_some_iff.mp stepped
      exact .worked i thread found (Or.inl ⟨ok, handle, rfl⟩) (workerStep_worked stepped fine)
    | callModule i =>
      obtain ⟨h, r, found, stepped⟩ := runningStep_cases stepped
      exact .worked i ⟨h, .running r⟩ found (Or.inr (Or.inl rfl)) (callModule_worked rfl stepped fine)
    | endExecute i =>
      obtain ⟨h, r, found, stepped⟩ := runningStep_cases stepped
      exact .worked i ⟨h, .running r⟩ found (Or.inr (Or.inr rfl)) (endExecute_worked rfl stepped fine)
    | dispatch k => exact dispatch_happened stepped fine
    | removeCallback => exact removeCallback_happened stepped fine
    | conclude pushed => exact conclude_happened stepped fine
    | acknowledge i => exact acknowledge_happened stepped fine
    | quit => exact shutdown_happened.1 stepped
    | mapShutdown => exact shutdown_happened.2.1 stepped
    | callbackMapDestroy => exact shutdown_happened.2.2 stepped

end Happened

end GnomeVfs.Async
