import Mathlib.Data.Finset.Card
import GnomeVfs.Transition

/- The asynchronous jobs: the job map, the callback map, the worker threads and the dispatch of
notifications in the main loop. A job is named by its handle and a notification by its callback
id; neither is given out twice. A critical section is one step. A step that has to wait for a
`job_lock` cannot happen until the lock is free. -/
namespace GnomeVfs.Async

/-- `GnomeVFSOpType`. -/
inductive OpType where
  | openUri | openAsChannel | create | createSymbolicLink | createAsChannel | close | read | write
  | seek | readWriteDone | loadDirectory | findDirectory | xfer | getFileInfo | setFileInfo
  | moduleCallback | fileControl
  deriving DecidableEq

/-- What a callback pointer is: the callback that came with the operation of that number,
`empty_close_callback`, or the callback of a module. -/
inductive Callback where
  | user (operation : Nat)
  | emptyClose
  | module
  deriving DecidableEq

/-- `GnomeVFSOp`; `cancellation` is the state of its context. -/
structure Op where
  type : OpType
  callback : Callback
  cancellation : Bool
  deriving DecidableEq

/-- `GnomeVFSJob`; `handle` says whether the pointer is set, `locked` whether `job_lock` is held. -/
structure Job where
  handle : Bool
  cancelled : Bool
  failed : Bool
  op : Op
  locked : Bool
  deriving DecidableEq

/-- `GnomeVFSNotifyResult`; `sync` says which of the two functions dispatches it. -/
structure NotifyResult where
  jobHandle : Nat
  cancelled : Bool
  type : OpType
  callback : Callback
  sync : Bool
  deriving DecidableEq

/-- Inside one of the `execute_` functions: the operation it was entered for, the type and the
callback of a notification that was filled in before the work is done, and whether the last
notification of the operation has been given. -/
structure Running where
  kind : OpType
  result : Option (OpType × Callback)
  sent : Bool
  deriving DecidableEq

/-- Where a thread of the pool is in `thread_entry_point`. -/
inductive Phase where
  | queued
  | entered
  | running (r : Running)
  /-- The notification is in the callback map, and `g_idle_add` comes next. -/
  | adding (id : Nat) (r : Running)
  | idled (r : Running)
  | waiting (r : Running)
  | signalled (r : Running)
  | executed
  | leaving (complete : Bool)
  | gone
  deriving DecidableEq

structure Thread where
  job : Nat
  phase : Phase
  deriving DecidableEq

/-- Where the main loop is in the dispatch of a notification. -/
inductive Main where
  | idle
  | checked (id : Nat) (valid cancelled : Bool)
  | removed (id : Nat) (valid cancelled : Bool)
  deriving DecidableEq

/-- Where `_gnome_vfs_job_queue_shutdown` is. -/
inductive Shutdown where
  | notCalled | waiting | mapDown | done
  deriving DecidableEq

inductive Fault where
  | assertion | nullPointer | freedJob
  deriving DecidableEq

/-- The memory of the process. `live` holds the jobs that have not been freed; `acks` the
synchronous notifications whose callback has been called and whose thread has not been woken;
`operations` the handle of each operation that was started, and `ran` the operations whose
callback was run. Ids are not used again, so fewer than 2^32 are. -/
structure State where
  jobs : Nat → Job
  live : Finset Nat
  jobMap : Option (Finset Nat)
  nextJob : Nat
  shuttingDown : Bool
  results : Nat → NotifyResult
  callbackMap : Option (Finset Nat)
  nextCallback : Nat
  jobCount : Int
  threads : List Thread
  idle : List Nat
  main : Main
  acks : List Nat
  quitting : Bool
  shutdown : Shutdown
  operations : List Nat
  ran : List Nat
  fault : Option Fault

def noJob : Job := ⟨false, false, false, ⟨.openUri, .emptyClose, false⟩, false⟩

def noResult : NotifyResult := ⟨0, false, .openUri, .emptyClose, false⟩

def initial : State where
  jobs := fun _ => noJob
  live := ∅
  jobMap := none
  nextJob := 0
  shuttingDown := false
  results := fun _ => noResult
  callbackMap := none
  nextCallback := 0
  jobCount := 0
  threads := []
  idle := []
  main := .idle
  acks := []
  quitting := false
  shutdown := .notCalled
  operations := []
  ran := []
  fault := none

namespace State

/-- The process ends. -/
def fail (s : State) (fault : Fault) : State := { s with fault := s.fault.or (some fault) }

/-- `_gnome_vfs_async_job_map_get_job`. -/
def getJob (s : State) (h : Nat) : Bool := h ∈ s.jobMap.getD ∅

def modifyJob (s : State) (h : Nat) (f : Job → Job) : State :=
  { s with jobs := Function.update s.jobs h (f (s.jobs h)) }

def setLocked (s : State) (h : Nat) (locked : Bool) : State :=
  s.modifyJob h fun job => { job with locked }

def setPhase (s : State) (i h : Nat) (phase : Phase) : State :=
  { s with threads := s.threads.set i ⟨h, phase⟩ }

end State

/-- The operations behind which the job stays open for more. -/
def opensJob : OpType → Bool
  | .openUri | .openAsChannel | .create | .createAsChannel | .createSymbolicLink => true
  | _ => false

/-- `_gnome_vfs_job_complete`; `none` where the assertion fails. -/
def jobComplete (job : Job) : Option Bool :=
  match job.op.type with
  | .openUri | .openAsChannel | .create | .createAsChannel | .createSymbolicLink =>
    some (job.cancelled || job.failed)
  | .read | .write => none
  | .readWriteDone | .fileControl | .seek => some false
  | _ => some true

/-- `_gnome_vfs_job_destroy`. -/
def jobDestroy (s : State) (h : Nat) : State :=
  if h ∈ s.live then { s with live := s.live.erase h, jobCount := s.jobCount - 1 }
  else s.fail .freedJob

/-- `_gnome_vfs_async_job_completed`. -/
def jobCompleted (s : State) (h : Nat) : State :=
  match s.jobMap with
  | none => s.fail .assertion
  | some m =>
    let left := m.erase h
    { s with jobMap := if s.shuttingDown ∧ left = ∅ then none else some left }

/-- `_gnome_vfs_job_set`. -/
def jobSet (s : State) (h : Nat) (type : OpType) (callback : Callback) : State :=
  s.modifyJob h fun job => { job with op := ⟨type, callback, false⟩, cancelled := false }

/-- `_gnome_vfs_job_go` with `_gnome_vfs_job_schedule`. When no thread could be started,
`g_thread_pool_push` returns an error and keeps the job in its queue. -/
def jobGo (s : State) (h : Nat) (pushed : Bool) : State :=
  if s.quitting then jobDestroy s h
  else
    let s := { s with threads := s.threads ++ [⟨h, .queued⟩] }
    if pushed then s else jobDestroy (jobCompleted s h) h

/-- `_gnome_vfs_job_new` with `_gnome_vfs_async_job_map_add_job`. -/
def jobNew (s : State) (type : OpType) : State :=
  let h := s.nextJob + 1
  { s with
    nextJob := h
    jobMap := some (insert h (s.jobMap.getD ∅))
    jobs := Function.update s.jobs h ⟨false, false, false, ⟨type, .user s.operations.length, false⟩, false⟩
    live := insert h s.live
    jobCount := s.jobCount + 1
    operations := s.operations ++ [h] }

/-- The operations that come with a job of their own. -/
def startsJob : OpType → Bool
  | .openUri | .openAsChannel | .create | .createAsChannel | .createSymbolicLink | .loadDirectory
  | .findDirectory | .xfer | .getFileInfo | .setFileInfo => true
  | _ => false

/-- `gnome_vfs_async_open` and the other functions that return a handle. -/
def launch (s : State) (type : OpType) (pushed : Bool) : Option State :=
  if !startsJob type then none
  else if s.shuttingDown then some (s.fail .assertion)
  else some (jobGo (jobNew s type) (s.nextJob + 1) pushed)

def usesHandle : OpType → Bool
  | .close | .read | .write | .seek | .fileControl => true
  | _ => false

/-- `gnome_vfs_async_read` and the other functions on a handle. `gnome_vfs_async_close` waits
for a read or a write to be over. -/
def operate (s : State) (h : Nat) (type : OpType) (pushed : Bool) : Option State :=
  if !usesHandle type then none
  else if !s.getJob h then some s
  else if h ∉ s.live then some (s.fail .freedJob)
  else if (s.jobs h).locked then none
  else if type = .close ∧ ((s.jobs h).op.type = .read ∨ (s.jobs h).op.type = .write) then none
  else
    some (jobGo { jobSet s h type (.user s.operations.length) with operations := s.operations ++ [h] }
      h pushed)

/-- `_gnome_vfs_async_job_cancel_job_and_callbacks` on the callbacks. -/
def cancelCallbacks (s : State) (h : Nat) : State :=
  { s with results := fun id =>
      if id ∈ s.callbackMap.getD ∅ ∧ (s.results id).jobHandle = h then
        { s.results id with cancelled := true }
      else s.results id }

/-- `gnome_vfs_async_cancel`. -/
def cancel (s : State) (h : Nat) : Option State :=
  if !s.getJob h then some (cancelCallbacks s h)
  else if h ∉ s.live then some (s.fail .freedJob)
  else
    some (cancelCallbacks
      (s.modifyJob h fun job => { job with cancelled := true, op := { job.op with cancellation := true } }) h)

/-- `_gnome_vfs_async_job_add_callback`: the id under which the notification was added, if it was. -/
def addCallback (s : State) (h : Nat) (type : OpType) (callback : Callback) (sync : Bool) :
    State × Option Nat :=
  if s.shuttingDown then (s.fail .assertion, none)
  else
    let id := s.nextCallback + 1
    let map := s.callbackMap.getD ∅
    if (s.jobs h).cancelled then ({ s with nextCallback := id, callbackMap := some map }, none)
    else
      ({ s with
          nextCallback := id
          callbackMap := some (insert id map)
          results := Function.update s.results id ⟨h, false, type, callback, sync⟩ }, some id)

/-- The `execute_` functions that fill in the notification before they do their work. -/
def fillsFirst : OpType → Bool
  | .close | .read | .write | .getFileInfo | .setFileInfo | .findDirectory | .fileControl => true
  | _ => false

/-- The start of `thread_entry_point`. -/
def begin (s : State) (i h : Nat) : Option State :=
  if h ∉ s.live then some (s.fail .freedJob)
  else if !s.getJob h then some (s.setPhase i h .gone)
  else if (s.jobs h).locked then none
  else some ((s.setLocked h true).setPhase i h .entered)

/-- The test of `_gnome_vfs_job_execute`. -/
def execute (s : State) (i h : Nat) : Option State :=
  if h ∉ s.live then some (s.fail .freedJob)
  else
    let op := (s.jobs h).op
    if (s.jobs h).cancelled then
      let s :=
        if op.type = .read ∨ op.type = .write then
          s.modifyJob h fun job => { job with op := { job.op with type := .readWriteDone } }
        else s
      some (s.setPhase i h .executed)
    else
      let result := if fillsFirst op.type then some (op.type, op.callback) else none
      some (s.setPhase i h (.running ⟨op.type, result, false⟩))

/-- Where an `execute_` function goes on when it has notified the main loop. -/
def afterNotify (sync : Bool) (r : Running) : Phase :=
  if sync ∨ r.kind = .loadDirectory ∧ !r.sent then .running r else .executed

/-- `job_oneway_notify` and `job_notify` up to `g_idle_add`. -/
def notify (s : State) (i h : Nat) (r : Running) (type : OpType) (callback : Callback) (sync : Bool) :
    State :=
  match addCallback s h type callback sync with
  | (s, some id) => s.setPhase i h (.adding id r)
  | (s, none) => s.setPhase i h (afterNotify sync r)

/-- `_gnome_vfs_dispatch_module_callback`, which the work of any operation can lead to. -/
def callModule (s : State) (i h : Nat) (r : Running) : Option State :=
  if h ∉ s.live then some (s.fail .freedJob)
  else some (notify s i h r .moduleCallback .module true)

/-- What an `execute_` function leaves in the job, given the result of its work and the handle
that came with it. -/
def recordResult (kind : OpType) (ok handle : Bool) (job : Job) : Job :=
  match kind with
  | .openUri | .create => { job with handle, failed := job.failed || !ok }
  | .openAsChannel | .createAsChannel | .createSymbolicLink => { job with failed := job.failed || !ok }
  | .read | .write => { job with op := { job.op with type := .readWriteDone } }
  | .fileControl => { job with op := { job.op with type := .fileControl } }
  | _ => job

/-- The operations whose `execute_` function notifies the main loop. -/
def notifies : OpType → Bool
  | .readWriteDone | .moduleCallback => false
  | _ => true

def isChannel : OpType → Bool
  | .openAsChannel | .createAsChannel => true
  | _ => false

/-- The work of an `execute_` function and the notification about it. The result of the work
is anything; a directory and a transfer are reported in parts. -/
def report (s : State) (i h : Nat) (r : Running) (ok handle : Bool) : Option State :=
  if !notifies r.kind || r.sent then none
  else if h ∉ s.live then some (s.fail .freedJob)
  else
    let s := s.modifyJob h (recordResult r.kind ok handle)
    let (type, callback) := r.result.getD ((s.jobs h).op.type, (s.jobs h).op.callback)
    let sync := r.kind = .xfer || isChannel r.kind && ok
    let sent := if r.kind = .loadDirectory then !ok else r.kind ≠ .xfer
    some (notify s i h { r with sent } type callback sync)

/-- The return of an `execute_` function that does not end with a notification. -/
def mayReturn (job : Job) (r : Running) : Bool :=
  match r.kind with
  | .xfer => true
  | .openAsChannel | .createAsChannel => r.sent
  | .loadDirectory => job.op.cancellation
  | kind => !notifies kind

def endExecute (s : State) (i h : Nat) (r : Running) : Option State :=
  if h ∉ s.live then some (s.fail .freedJob)
  else if mayReturn (s.jobs h) r then some (s.setPhase i h .executed)
  else none

def idleAdd (s : State) (i h id : Nat) (r : Running) : Option State :=
  let s := { s with idle := s.idle ++ [id] }
  some (s.setPhase i h (if (s.results id).sync then .idled r else afterNotify false r))

/-- `g_cond_wait` releases the lock. -/
def condWait (s : State) (i h : Nat) (r : Running) : Option State :=
  if h ∉ s.live then some (s.fail .freedJob)
  else some ((s.setLocked h false).setPhase i h (.waiting r))

def resume (s : State) (i h : Nat) (r : Running) : Option State :=
  if h ∉ s.live then some (s.fail .freedJob)
  else if (s.jobs h).locked then none
  else some ((s.setLocked h true).setPhase i h (.running r))

/-- `_gnome_vfs_job_complete` and the release of the lock. -/
def complete (s : State) (i h : Nat) : Option State :=
  if h ∉ s.live then some (s.fail .freedJob)
  else
    match jobComplete (s.jobs h) with
    | none => some (s.fail .assertion)
    | some done => some ((s.setLocked h false).setPhase i h (.leaving done))

/-- The end of `thread_entry_point`. -/
def leave (s : State) (i h : Nat) (done : Bool) : Option State :=
  if !done then some (s.setPhase i h .gone)
  else if h ∉ s.live then some (s.fail .freedJob)
  else some ((jobDestroy (jobCompleted s h) h).setPhase i h .gone)

def runCallback (s : State) (callback : Callback) : State :=
  { s with
    ran :=
      match callback with
      | .user n => n :: s.ran
      | .emptyClose | .module => s.ran }

/-- `_gnome_vfs_async_job_callback_valid`. The test for `NULL` does not return, and the lookup
in no table finds nothing. -/
def callbackValid (s : State) (id : Nat) : State :=
  match s.callbackMap with
  | none => if !s.shuttingDown then s.fail .assertion else { s with main := .checked id false false }
  | some m => { s with main := .checked id (id ∈ m) (id ∈ m ∧ (s.results id).cancelled) }

/-- The main loop takes any of the sources that were added; not while it is in the shutdown. -/
def dispatch (s : State) (k : Nat) : Option State :=
  if s.main ≠ .idle ∨ s.shutdown = .mapDown then none
  else
    match s.idle[k]? with
    | none => none
    | some id => some (callbackValid { s with idle := s.idle.eraseIdx k } id)

/-- `_gnome_vfs_async_job_remove_callback`. -/
def removeCallback (s : State) : Option State :=
  match s.main with
  | .checked id valid cancelled =>
    match s.callbackMap with
    | none => some (s.fail .assertion)
    | some m => some { s with callbackMap := some (m.erase id), main := .removed id valid cancelled }
  | _ => none

/-- The branch of `dispatch_job_callback` for a cancelled notification, with
`handle_cancelled_open`. -/
def dispatchCancelled (s : State) (h : Nat) (pushed : Bool) : Option State :=
  if !s.getJob h then some s
  else if h ∉ s.live then some (s.fail .freedJob)
  else if (s.jobs h).locked then none
  else if opensJob (s.jobs h).op.type ∧ (s.jobs h).handle then
    some (jobGo (jobSet s h .close .emptyClose) h pushed)
  else some { s with jobMap := s.jobMap.map (·.erase h) }

/-- The rest of `dispatch_job_callback`. -/
def dispatchJobCallback (s : State) (x : NotifyResult) (valid cancelled pushed : Bool) : Option State :=
  if !valid then some s
  else if cancelled then dispatchCancelled s x.jobHandle pushed
  else
    match x.type with
    | .readWriteDone | .xfer | .moduleCallback => some (s.fail .assertion)
    | _ => some (runCallback s x.callback)

/-- The rest of `dispatch_sync_job_callback`, up to the lookup of the job. The callback of a
module is not the callback of an operation. -/
def dispatchSyncJobCallback (s : State) (x : NotifyResult) (valid cancelled : Bool) : State :=
  if !valid then s.fail .assertion
  else
    match x.type with
    | .createAsChannel | .openAsChannel => runCallback s x.callback
    | .moduleCallback => s
    | .xfer => if cancelled then s else runCallback s x.callback
    | _ => s.fail .assertion

def conclude (s : State) (pushed : Bool) : Option State :=
  match s.main with
  | .removed id valid cancelled =>
    let x := s.results id
    let s := { s with main := .idle }
    if x.sync then
      let s := dispatchSyncJobCallback s x valid cancelled
      some { s with acks := id :: s.acks }
    else dispatchJobCallback s x valid cancelled pushed
  | _ => none

def isWaiting : Phase → Bool
  | .waiting _ => true
  | _ => false

/-- The end of `dispatch_sync_job_callback`: one of the threads that wait for the job is woken,
if there is one. -/
def acknowledge (s : State) (i : Nat) : Option State :=
  match s.main, s.acks with
  | .idle, id :: rest =>
    let h := (s.results id).jobHandle
    if !s.getJob h then some (s.fail .nullPointer)
    else if h ∉ s.live then some (s.fail .freedJob)
    else if (s.jobs h).locked then none
    else
      match s.threads[i]? with
      | some ⟨j, .waiting r⟩ =>
        if j = h then some ({ s with acks := rest }.setPhase i h (.signalled r)) else none
      | _ =>
        if ∀ thread ∈ s.threads, thread.job = h → isWaiting thread.phase = false then
          some { s with acks := rest }
        else none
  | _, _ => none

/-- `_gnome_vfs_job_queue_shutdown` up to its loop. The pool goes on with what it has. -/
def quit (s : State) : Option State :=
  if s.shutdown = .notCalled ∧ s.main = .idle ∧ s.acks = [] then
    some { s with quitting := true, shutdown := .waiting }
  else none

/-- `_gnome_vfs_async_job_map_shutdown`, behind the loop that waits for the jobs. -/
def mapShutdown (s : State) : Option State :=
  if s.shutdown = .waiting ∧ s.main = .idle ∧ s.acks = [] ∧ s.jobCount = 0 then
    match s.jobMap with
    | none => some { s with shutdown := .mapDown }
    | some m =>
      some { s with
        shuttingDown := true
        jobMap := if m = ∅ then none else some m
        shutdown := .mapDown }
  else none

/-- `async_job_callback_map_destroy`. -/
def callbackMapDestroy (s : State) : Option State :=
  if s.shutdown = .mapDown then some { s with callbackMap := none, shutdown := .done } else none

/-- What can happen next. -/
inductive Event where
  | launch (type : OpType) (pushed : Bool)
  | operate (h : Nat) (type : OpType) (pushed : Bool)
  | cancel (h : Nat)
  | worker (i : Nat) (ok handle : Bool)
  | callModule (i : Nat)
  | endExecute (i : Nat)
  | dispatch (k : Nat)
  | removeCallback
  | conclude (pushed : Bool)
  | acknowledge (i : Nat)
  | quit
  | mapShutdown
  | callbackMapDestroy
  deriving DecidableEq

/-- The next step of a thread of the pool. -/
def workerStep (s : State) (i : Nat) (thread : Thread) (ok handle : Bool) : Option State :=
  match thread.phase with
  | .queued => begin s i thread.job
  | .entered => execute s i thread.job
  | .running r => report s i thread.job r ok handle
  | .adding id r => idleAdd s i thread.job id r
  | .idled r => condWait s i thread.job r
  | .waiting _ => none
  | .signalled r => resume s i thread.job r
  | .executed => complete s i thread.job
  | .leaving done => leave s i thread.job done
  | .gone => none

/-- Inside the work of an operation. -/
def runningStep (s : State) (i : Nat) (f : Nat → Running → Option State) : Option State :=
  match s.threads[i]? with
  | some ⟨h, .running r⟩ => f h r
  | _ => none

def step (s : State) (e : Event) : Option State :=
  if s.fault.isSome then none
  else
    match e with
    | .launch type pushed => launch s type pushed
    | .operate h type pushed => operate s h type pushed
    | .cancel h => cancel s h
    | .worker i ok handle => (s.threads[i]?).bind fun thread => workerStep s i thread ok handle
    | .callModule i => runningStep s i (callModule s i)
    | .endExecute i => runningStep s i (endExecute s i)
    | .dispatch k => dispatch s k
    | .removeCallback => removeCallback s
    | .conclude pushed => conclude s pushed
    | .acknowledge i => acknowledge s i
    | .quit => quit s
    | .mapShutdown => mapShutdown s
    | .callbackMapDestroy => callbackMapDestroy s

end GnomeVfs.Async
