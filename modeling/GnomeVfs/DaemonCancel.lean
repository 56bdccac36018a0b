import Mathlib.Algebra.Group.Nat.Defs
import Mathlib.Logic.Function.Basic
import GnomeVfs.Transition

/- Operations that the daemon runs for its clients, and how they are cancelled. A request goes over the
private connection of the client's thread, `Cancel` over the main connection of the client. -/
namespace GnomeVfs.DaemonCancel

open Transition

/-- `gint32` counters, as their 32 bits. -/
def increment (n : Nat) : Nat := (n + 1) % 2 ^ 32

/-- The bits of `-1`, the id of a request that has no context. -/
def noId : Nat := 2 ^ 32 - 1

inductive Method where
  | open | create | close | read | write | seek | tell | truncateHandle | openDirectory | readDirectory
  | closeDirectory | getFileInfo | getFileInfoFromHandle | isLocal | makeDirectory | removeDirectory | move
  | unlink | checkSameFs | setFileInfo | truncate | findDirectory | createSymbolicLink | forgetCache
  | getVolumeFreeSpace
  deriving DecidableEq

/-- Whether the daemon's handler of a method calls `connection_add_cancellation` for a request with an id. -/
def Method.addsCancellation : Method → Bool
  | .tell | .closeDirectory | .isLocal | .forgetCache | .getVolumeFreeSpace => false
  | _ => true

/-- How far a request is: its id is taken, it is on the private connection, the connection's thread has
taken it, its context is in `cancellations`, it is finished. A request that is not sent is lost. -/
inductive Phase where
  | prepared | queued | taken | running | finished | lost
  deriving DecidableEq

/-- `executing` is from `cancellation_id_new` to `cancellation_id_free`. The daemon's context is there when it
has been made, and says whether it is cancelled. Kept for the proofs: whether
`gnome_vfs_cancellation_cancel` was called for the context in that time, how far the request was when
`Cancel` came for it, and the requests that the calls were for which cancelled the daemon's context. -/
structure Request where
  thread : Nat
  connection : Nat
  id : Nat
  context : Option Nat
  method : Method
  phase : Phase
  executing : Bool
  asked : Bool
  daemonContext : Option Bool
  met : Option Phase
  cancelledBy : List (Option Nat)
  deriving DecidableEq

def Request.blank : Request := ⟨0, 0, noId, none, .tell, .prepared, false, false, none, none, []⟩

/-- `GnomeVFSCancellation`, without its pipe. -/
structure Cancellation where
  cancelled : Bool
  handle : Nat
  connection : Nat
  deriving DecidableEq

structure LocalConnection where
  connId : Nat
  handle : Nat
  deriving DecidableEq

/-- A thread of a client, and the request it is executing. -/
structure Thread where
  connection : Option LocalConnection
  request : Option Nat
  deriving DecidableEq

/-- The arguments of `Cancel`, and the request that the call was for. -/
structure CancelMessage where
  id : Nat
  connection : Nat
  request : Option Nat
  deriving DecidableEq

/-- An entry of the daemon's `cancellations`, and the request whose context it has. -/
structure CancellationHandle where
  id : Nat
  connId : Nat
  request : Nat
  deriving DecidableEq

/-- Clients have threads and contexts. `connId` is the daemon's counter; each private connection has a
queue and what its thread is handling, and each client's main connection has a queue. -/
structure State where
  threads : Nat → Thread
  cancellations : Nat → Cancellation
  requests : Nat → Request
  created : Nat
  connId : Nat
  incoming : Nat → List Nat
  serving : Nat → Option Nat
  mains : Nat → List CancelMessage
  registered : List CancellationHandle
  aborted : Bool

inductive Event where
  | connect (thread : Nat)
  | begin (thread : Nat) (context : Option Nat) (method : Method)
  | send (thread : Nat)
  | fail (thread : Nat)
  | die (thread : Nat)
  | free (thread : Nat)
  | cancel (main context : Nat)
  | lose (connection : Nat)
  | take (connection : Nat)
  | add (connection : Nat)
  | finish (connection : Nat)
  | deliver (main : Nat)

def State.new : State where
  threads := fun _ => ⟨none, none⟩
  cancellations := fun _ => ⟨false, 0, 0⟩
  requests := fun _ => .blank
  created := 0
  connId := 0
  incoming := fun _ => []
  serving := fun _ => none
  mains := fun _ => []
  registered := []
  aborted := false

def State.setThread (s : State) (thread : Nat) (value : Thread) : State :=
  { s with threads := Function.update s.threads thread value }

def State.setRequest (s : State) (n : Nat) (value : Request) : State :=
  { s with requests := Function.update s.requests n value }

/-- `get_private_connection`, for a thread that has none. -/
def State.getPrivateConnection (s : State) (thread : Nat) : State :=
  { s.setThread thread ⟨some ⟨increment s.connId, 0⟩, none⟩ with connId := increment s.connId }

/-- `_gnome_vfs_cancellation_set_handle`, with its assertion. -/
def State.setHandle (s : State) (context connection handle : Nat) : State :=
  { s with
    cancellations := Function.update s.cancellations context
      { s.cancellations context with connection := connection, handle := handle }
    aborted := s.aborted || (s.cancellations context).handle ≠ 0 }

/-- `_gnome_vfs_cancellation_unset_handle`. -/
def State.unsetHandle (s : State) (context : Nat) : State :=
  { s with
    cancellations := Function.update s.cancellations context
      { s.cancellations context with connection := 0, handle := 0 } }

/-- A request is made, and its thread executes it. -/
def State.newRequest (s : State) (thread : Nat) (connection : LocalConnection) (id : Nat) (context : Option Nat)
    (method : Method) : State :=
  { (s.setRequest s.created
      ⟨thread, connection.connId, id, context, method, .prepared, true, false, none, none, []⟩).setThread thread
        ⟨some connection, some s.created⟩ with
    created := s.created + 1 }

/-- `execute_operation` up to the sending, with `cancellation_id_new`. -/
def State.executeOperation (s : State) (thread : Nat) (connection : LocalConnection) (context : Option Nat)
    (method : Method) : State :=
  match context with
  | none => s.newRequest thread connection noId none method
  | some c =>
    let handle := increment connection.handle
    (s.setHandle c connection.connId handle).newRequest thread { connection with handle := handle } handle (some c) method

/-- The end of `execute_operation`, with `cancellation_id_free`. -/
def State.cancellationIdFree (s : State) (thread n : Nat) : State :=
  let r := s.requests n
  let s := match r.context with
    | some c => if r.id ≠ noId then s.unsetHandle c else s
    | none => s
  (s.setRequest n { r with executing := false }).setThread thread { s.threads thread with request := none }

/-- The request that is executed with a context. -/
def State.requestOf (s : State) (context : Nat) : Option Nat :=
  (List.range s.created).find? fun n => (s.requests n).executing && (s.requests n).context = some context

/-- What is asked of the requests that are executed with a context. -/
def State.ask (s : State) (context : Nat) : State :=
  { s with
    requests := fun n => { s.requests n with
      asked := (s.requests n).asked || ((s.requests n).executing && (s.requests n).context = some context) } }

/-- `gnome_vfs_cancellation_cancel` in a client, where only its main thread calls it, so that the call is
one step when it takes the lock: the message may lie on the connection for as long as it likes. -/
def State.cancellationCancel (s : State) (main context : Nat) : State :=
  let cancellation := s.cancellations context
  if cancellation.cancelled then s.ask context
  else
    let s := { s.ask context with
      cancellations := Function.update s.cancellations context { cancellation with cancelled := true } }
    if cancellation.handle ≠ 0 then
      { s with
        mains := Function.update s.mains main
          (s.mains main ++ [⟨cancellation.handle, cancellation.connection, s.requestOf context⟩]) }
    else s

/-- `connection_add_cancellation`. -/
def State.addCancellation (s : State) (n : Nat) : State :=
  let r := s.requests n
  { s.setRequest n { r with phase := .running, daemonContext := some false } with
    registered := ⟨r.id, r.connection, n⟩ :: s.registered.filter fun h => !(h.id = r.id && h.connId = r.connection) }

/-- `connection_remove_cancellation`. -/
def State.removeCancellation (s : State) (r : Request) : State :=
  { s with registered := s.registered.filter fun h => !(h.id = r.id && h.connId = r.connection) }

/-- `daemon_connection_cancel`, where the call was for the request `caller`. -/
def State.daemonConnectionCancel (s : State) (connId id : Nat) (caller : Option Nat) : State :=
  match s.registered.find? fun h => h.id = id && h.connId = connId with
  | some h => s.setRequest h.request { s.requests h.request with
      daemonContext := some true, cancelledBy := caller :: (s.requests h.request).cancelledBy }
  | none => s

/-- The request goes onto the private connection. -/
def State.sendRequest (s : State) (n : Nat) : State :=
  let r := s.requests n
  { s.setRequest n { r with phase := .queued } with
    incoming := Function.update s.incoming r.connection (s.incoming r.connection ++ [n]) }

/-- The first request of a private connection is taken or lost. -/
def State.leaveQueue (s : State) (connection n : Nat) (rest : List Nat) (phase : Phase) : State :=
  { s.setRequest n { s.requests n with phase := phase } with
    incoming := Function.update s.incoming connection rest
    serving := if phase = .taken then Function.update s.serving connection (some n) else s.serving }

/-- The handler of a request returns. -/
def State.finishRequest (s : State) (connection n : Nat) : State :=
  let r := s.requests n
  let s := if r.phase = .running then s.removeCancellation r else s
  { s.setRequest n { r with phase := .finished } with serving := Function.update s.serving connection none }

/-- How far the request is that a call was for. -/
def State.meet (s : State) (caller : Option Nat) : State :=
  match caller with
  | some n => s.setRequest n { s.requests n with met := some (s.requests n).phase }
  | none => s

def State.step (s : State) (event : Event) : Option State :=
  if s.aborted then none
  else match event with
  | .connect thread =>
    match s.threads thread with
    | ⟨none, none⟩ => some (s.getPrivateConnection thread)
    | _ => none
  | .begin thread context method =>
    match s.threads thread with
    | ⟨some connection, none⟩ => some (s.executeOperation thread connection context method)
    | _ => none
  | .send thread =>
    match (s.threads thread).request with
    | some n => if (s.requests n).phase = .prepared then some (s.sendRequest n) else none
    | none => none
  | .fail thread =>
    match (s.threads thread).request with
    | some n =>
      let r := s.requests n
      if r.phase = .prepared then some (s.setRequest n { r with phase := .lost }) else none
    | none => none
  | .die thread =>
    match (s.threads thread).request with
    | some n =>
      if (s.requests n).phase = .prepared then none
      else some (s.setThread thread { s.threads thread with connection := none })
    | none => none
  | .free thread =>
    -- there is a reply, the time is up, or the connection is broken
    match (s.threads thread).request with
    | some n => if (s.requests n).phase = .prepared then none else some (s.cancellationIdFree thread n)
    | none => none
  | .cancel main context => some (s.cancellationCancel main context)
  | .lose connection =>
    match s.incoming connection with
    | n :: rest => some (s.leaveQueue connection n rest .lost)
    | [] => none
  | .take connection =>
    match s.incoming connection, s.serving connection with
    | n :: rest, none => some (s.leaveQueue connection n rest .taken)
    | _, _ => none
  | .add connection =>
    match s.serving connection with
    | some n =>
      let r := s.requests n
      if r.phase = .taken ∧ r.method.addsCancellation ∧ r.id ≠ noId then some (s.addCancellation n) else none
    | none => none
  | .finish connection =>
    -- a handler that has added nothing needs no context, or has refused the arguments
    match s.serving connection with
    | some n => some (s.finishRequest connection n)
    | none => none
  | .deliver main =>
    match s.mains main with
    | m :: rest =>
      some (({ s with mains := Function.update s.mains main rest }.meet m.request).daemonConnectionCancel
        m.connection m.id m.request)
    | [] => none

/-- Each operation has a context of its own while it is executed. -/
def State.allowed (s : State) : Event → Prop
  | .begin _ (some context) _ => ∀ n < s.created, (s.requests n).executing = true → (s.requests n).context ≠ some context
  | _ => True

/-- No `Cancel` has come for a request before the daemon adds its context, no call comes for an operation
whose context was cancelled before, and no counter runs over. -/
def State.careful (s : State) : Event → Prop
  | .add connection => ∀ n ∈ s.serving connection, (s.requests n).met = none
  | .cancel _ context => (s.cancellations context).cancelled = true →
      ∀ n < s.created, (s.requests n).executing = true → (s.requests n).context = some context → (s.requests n).asked = true
  | .connect _ => s.connId + 1 < 2 ^ 32
  | .begin thread (some _) _ => ∀ connection ∈ (s.threads thread).connection, connection.handle + 1 < noId
  | _ => True

instance decidableAllowed (s : State) : ∀ event : Event, Decidable (s.allowed event)
  | .begin _ (some context) _ => inferInstanceAs (Decidable
      (∀ n < s.created, (s.requests n).executing = true → (s.requests n).context ≠ some context))
  | .begin _ none _ | .connect _ | .send _ | .fail _ | .die _ | .free _ | .cancel _ _ | .lose _ | .take _ | .add _
  | .finish _ | .deliver _ => .isTrue trivial

/-- A `Cancel` for a request is on its way to the daemon. -/
def State.inFlight (s : State) (n : Nat) : Prop :=
  ∃ main, ∃ m ∈ s.mains main, m.request = some n

/-- Where the operation was to be cancelled, its context in the daemon is, unless the request was finished
when `Cancel` came; and whoever is cancelled is cancelled by a call for it. -/
def State.CancelsRight (s : State) : Prop :=
  ∀ n, ((s.requests n).asked = true →
    s.inFlight n ∨ (s.requests n).daemonContext = none ∨ (s.requests n).daemonContext = some true ∨
      (s.requests n).met = some .finished) ∧
    ((s.requests n).daemonContext = some true → (s.requests n).asked = true) ∧
    ∀ caller ∈ (s.requests n).cancelledBy, caller = some n

section Invariant

variable {s t : State} {r q : Request}

/-- What a client knows of a request. -/
def Request.known (r : Request) : Nat × Nat × Nat × Option Nat × Bool := (r.thread, r.connection, r.id, r.context, r.executing)

/-- What the clients keep: the ids of a connection go up, so that a connection and an id name one request,
and a context has the handle of the request that is executed with it. -/
structure State.Clients (s : State) : Prop where
  calm : s.aborted = false
  unmade : ∀ n, s.created ≤ n → s.requests n = .blank
  held : ∀ thread n, (s.threads thread).request = some n → (s.requests n).executing = true ∧ (s.requests n).thread = thread
  holds : ∀ n, (s.requests n).executing = true → (s.threads (s.requests n).thread).request = some n
  issued : ∀ thread l, (s.threads thread).connection = some l → l.connId ≤ s.connId
  apart : ∀ thread other l k, (s.threads thread).connection = some l → (s.threads other).connection = some k →
    l.connId = k.connId → thread = other
  below : ∀ thread l n, (s.threads thread).connection = some l → (s.requests n).context ≠ none →
    (s.requests n).connection = l.connId → (s.requests n).id ≤ l.handle
  numbered : ∀ n, (s.requests n).context ≠ none →
    (s.requests n).connection ≤ s.connId ∧ 0 < (s.requests n).id ∧ (s.requests n).id < noId
  anonymous : ∀ n, (s.requests n).context = none → (s.requests n).id = noId
  distinct : ∀ n m, (s.requests n).context ≠ none → (s.requests m).context ≠ none →
    (s.requests n).connection = (s.requests m).connection → (s.requests n).id = (s.requests m).id → n = m
  handles : ∀ n c, (s.requests n).executing = true → (s.requests n).context = some c →
    (s.cancellations c).handle = (s.requests n).id ∧ (s.cancellations c).connection = (s.requests n).connection
  single : ∀ n m c, (s.requests n).executing = true → (s.requests n).context = some c →
    (s.requests m).executing = true → (s.requests m).context = some c → n = m
  unset : ∀ c, (s.cancellations c).handle ≠ 0 → ∃ n, (s.requests n).executing = true ∧ (s.requests n).context = some c

theorem State.Clients.new : State.new.Clients where
  calm := rfl
  unmade _ _ := rfl
  held _ _ never := by cases never
  holds _ never := by cases never
  issued _ _ never := by cases never
  apart _ _ _ _ never := by cases never
  below _ _ _ never := by cases never
  numbered _ never := absurd rfl never
  anonymous _ _ := rfl
  distinct _ _ never := absurd rfl never
  handles _ _ never := by cases never
  single _ _ _ never := by cases never
  unset _ never := absurd rfl never

/-- Nothing else than the clients does concerns them. -/
theorem State.Clients.frame (clients : s.Clients) (calm : t.aborted = s.aborted) (threads : t.threads = s.threads)
    (created : t.created = s.created) (connId : t.connId = s.connId)
    (handle : ∀ c, (t.cancellations c).handle = (s.cancellations c).handle)
    (toward : ∀ c, (t.cancellations c).connection = (s.cancellations c).connection)
    (blank : ∀ n, s.created ≤ n → s.requests n = .blank → t.requests n = .blank)
    (known : ∀ n, (t.requests n).known = (s.requests n).known) : t.Clients := by
  have thread : ∀ n, (t.requests n).thread = (s.requests n).thread := fun n => congrArg (·.1) (known n)
  have connection : ∀ n, (t.requests n).connection = (s.requests n).connection := fun n => congrArg (·.2.1) (known n)
  have id : ∀ n, (t.requests n).id = (s.requests n).id := fun n => congrArg (·.2.2.1) (known n)
  have context : ∀ n, (t.requests n).context = (s.requests n).context := fun n => congrArg (·.2.2.2.1) (known n)
  have executing : ∀ n, (t.requests n).executing = (s.requests n).executing := fun n => congrArg (·.2.2.2.2) (known n)
  constructor <;> simp only [calm, threads, created, connId, handle, toward, thread, connection, id, context, executing]
  · exact clients.calm
  · intro n unmade
    exact blank n unmade (clients.unmade n unmade)
  · exact clients.held
  · exact clients.holds
  · exact clients.issued
  · exact clients.apart
  · exact clients.below
  · exact clients.numbered
  · exact clients.anonymous
  · exact clients.distinct
  · exact clients.handles
  · exact clients.single
  · exact clients.unset

theorem State.Clients.made (clients : s.Clients) {n : Nat} (used : s.requests n ≠ .blank) : n < s.created := by
  by_contra unmade
  exact used (clients.unmade n (by omega))

theorem State.Clients.change (clients : s.Clients) {n : Nat} (calm : t.aborted = s.aborted) (threads : t.threads = s.threads)
    (created : t.created = s.created) (connId : t.connId = s.connId) (cancellations : t.cancellations = s.cancellations)
    (requests : ∀ m, t.requests m = if m = n then q else s.requests m) (known : q.known = (s.requests n).known)
    (used : s.requests n ≠ .blank) : t.Clients := by
  apply clients.frame calm threads created connId
  · intro c
    rw [cancellations]
  · intro c
    rw [cancellations]
  · intro m unmade blank
    have made := clients.made used
    rw [requests, if_neg (by omega)]
    exact blank
  · intro m
    rw [requests]
    split
    · rename_i this
      rw [known, this]
    · rfl

theorem State.Clients.connect (clients : s.Clients) {thread : Nat} (idle : s.threads thread = ⟨none, none⟩)
    (room : s.connId + 1 < 2 ^ 32) : (s.getPrivateConnection thread).Clients := by
  have next : increment s.connId = s.connId + 1 := Nat.mod_eq_of_lt room
  have threads : ∀ other, (s.getPrivateConnection thread).threads other =
      if other = thread then ⟨some ⟨s.connId + 1, 0⟩, none⟩ else s.threads other := by
    intro other
    rw [← next]
    exact Function.update_apply _ _ _ _
  have connId : (s.getPrivateConnection thread).connId = s.connId + 1 := next
  have requests : (s.getPrivateConnection thread).requests = s.requests := rfl
  have nobody : ∀ n, (s.requests n).executing = true → (s.requests n).thread ≠ thread := by
    intro n executing mine
    have holds := clients.holds n executing
    rw [mine, idle] at holds
    cases holds
  constructor
  · exact clients.calm
  · exact clients.unmade
  · simp only [threads, requests]
    have held := clients.held
    grind
  · simp only [threads, requests]
    have holds := clients.holds
    grind
  · simp only [threads, connId]
    have issued := clients.issued
    grind
  · simp only [threads]
    have apart := clients.apart
    have issued := clients.issued
    grind
  · simp only [threads, requests]
    have below := clients.below
    have numbered := clients.numbered
    grind
  · simp only [connId, requests]
    have numbered := clients.numbered
    grind
  · exact clients.anonymous
  · exact clients.distinct
  · exact clients.handles
  · exact clients.single
  · exact clients.unset

theorem State.Clients.die (clients : s.Clients) (thread : Nat) :
    (s.setThread thread ⟨none, (s.threads thread).request⟩).Clients := by
  have threads : ∀ other, (s.setThread thread ⟨none, (s.threads thread).request⟩).threads other =
      if other = thread then ⟨none, (s.threads thread).request⟩ else s.threads other :=
    fun other => Function.update_apply _ _ _ _
  have requests : (s.setThread thread ⟨none, (s.threads thread).request⟩).requests = s.requests := rfl
  have connId : (s.setThread thread ⟨none, (s.threads thread).request⟩).connId = s.connId := rfl
  constructor
  · exact clients.calm
  · exact clients.unmade
  · simp only [threads, requests]
    have held := clients.held
    grind
  · simp only [threads, requests]
    have holds := clients.holds
    grind
  · simp only [threads, connId]
    have issued := clients.issued
    grind
  · simp only [threads]
    have apart := clients.apart
    grind
  · simp only [threads, requests]
    have below := clients.below
    grind
  · exact clients.numbered
  · exact clients.anonymous
  · exact clients.distinct
  · exact clients.handles
  · exact clients.single
  · exact clients.unset

theorem State.Clients.free (clients : s.Clients) {thread n : Nat} (executing : (s.threads thread).request = some n) :
    (s.cancellationIdFree thread n).Clients := by
  obtain ⟨executes, mine⟩ := clients.held thread n executing
  have threads : ∀ other, (s.cancellationIdFree thread n).threads other =
      if other = thread then ⟨(s.threads thread).connection, none⟩ else s.threads other := by
    intro other
    unfold State.cancellationIdFree
    dsimp only
    split
    · split
      · exact Function.update_apply _ _ _ _
      · exact Function.update_apply _ _ _ _
    · exact Function.update_apply _ _ _ _
  have requests : ∀ m, (s.cancellationIdFree thread n).requests m =
      if m = n then { s.requests n with executing := false } else s.requests m := by
    intro m
    unfold State.cancellationIdFree
    dsimp only
    split
    · split
      · exact Function.update_apply _ _ _ _
      · exact Function.update_apply _ _ _ _
    · exact Function.update_apply _ _ _ _
  have cancellations : ∀ c, (s.cancellationIdFree thread n).cancellations c =
      if (s.requests n).context = some c then ⟨(s.cancellations c).cancelled, 0, 0⟩ else s.cancellations c := by
    intro c
    unfold State.cancellationIdFree
    dsimp only
    split
    · rename_i d context
      have numbered := (clients.numbered n (by rw [context]; exact Option.some_ne_none d)).2.2
      rw [if_pos (Nat.ne_of_lt numbered), context]
      show Function.update s.cancellations d _ c = _
      rw [Function.update_apply]
      grind
    · rename_i context
      rw [context]
      rfl
  have others : (s.cancellationIdFree thread n).aborted = s.aborted ∧
      (s.cancellationIdFree thread n).created = s.created ∧ (s.cancellationIdFree thread n).connId = s.connId := by
    unfold State.cancellationIdFree
    dsimp only
    split
    · split
      · exact ⟨rfl, rfl, rfl⟩
      · exact ⟨rfl, rfl, rfl⟩
    · exact ⟨rfl, rfl, rfl⟩
  obtain ⟨aborted, created, connId⟩ := others
  constructor
  · exact aborted.trans clients.calm
  · simp only [requests, created]
    have unmade := clients.unmade
    grind [Request.blank]
  · simp only [requests, threads]
    have held := clients.held
    grind
  · simp only [requests, threads]
    have holds := clients.holds
    grind
  · simp only [threads, connId]
    have issued := clients.issued
    grind
  · simp only [threads]
    have apart := clients.apart
    grind
  · simp only [requests, threads]
    have below := clients.below
    grind
  · simp only [requests, connId]
    have numbered := clients.numbered
    grind
  · simp only [requests]
    have anonymous := clients.anonymous
    grind
  · simp only [requests]
    have distinct := clients.distinct
    grind
  · simp only [requests, cancellations]
    have handles := clients.handles
    have single := clients.single
    grind
  · simp only [requests]
    have single := clients.single
    grind
  · simp only [requests, cancellations]
    intro c set
    by_cases this : (s.requests n).context = some c
    · rw [if_pos this] at set
      exact absurd rfl set
    · rw [if_neg this] at set
      obtain ⟨m, executing, context⟩ := clients.unset c set
      exact ⟨m, by grind⟩

/-- The thread of a new request has not executed any. -/
theorem State.Clients.begin (clients : s.Clients) {thread : Nat} {connection : LocalConnection} {context : Option Nat}
    {method : Method} (idle : s.threads thread = ⟨some connection, none⟩)
    (own : ∀ c ∈ context, ∀ n < s.created, (s.requests n).executing = true → (s.requests n).context ≠ some c)
    (room : context ≠ none → connection.handle + 1 < noId) :
    (s.executeOperation thread connection context method).Clients := by
  have made : ∀ n, (s.requests n).executing = true → n < s.created := by
    intro n executing
    by_contra unmade
    rw [clients.unmade n (by omega)] at executing
    cases executing
  have nobody : ∀ n, (s.requests n).executing = true → (s.requests n).thread ≠ thread := by
    intro n executing mine
    have holds := clients.holds n executing
    rw [mine, idle] at holds
    cases holds
  have mine : (s.threads thread).connection = some connection := by rw [idle]
  cases context with
  | none =>
    have threads : ∀ other, (s.executeOperation thread connection none method).threads other =
        if other = thread then ⟨some connection, some s.created⟩ else s.threads other :=
      fun other => Function.update_apply _ _ _ _
    have requests : ∀ n, (s.executeOperation thread connection none method).requests n =
        if n = s.created then
          ⟨thread, connection.connId, noId, none, method, .prepared, true, false, none, none, []⟩
        else s.requests n :=
      fun n => Function.update_apply _ _ _ _
    have created : (s.executeOperation thread connection none method).created = s.created + 1 := rfl
    have cancellations : (s.executeOperation thread connection none method).cancellations = s.cancellations := rfl
    have connId : (s.executeOperation thread connection none method).connId = s.connId := rfl
    constructor
    · exact clients.calm
    · simp only [requests, created]
      have unmade := clients.unmade
      grind
    · simp only [requests, threads]
      have held := clients.held
      grind
    · simp only [requests, threads]
      have holds := clients.holds
      grind
    · simp only [threads, connId]
      have issued := clients.issued
      grind
    · simp only [threads]
      have apart := clients.apart
      grind
    · simp only [requests, threads]
      have below := clients.below
      have issued := clients.issued
      have apart := clients.apart
      grind
    · simp only [requests, connId]
      have numbered := clients.numbered
      have issued := clients.issued
      grind
    · simp only [requests]
      have anonymous := clients.anonymous
      grind
    · simp only [requests]
      have distinct := clients.distinct
      have below := clients.below
      grind
    · simp only [requests, cancellations]
      have handles := clients.handles
      grind
    · simp only [requests]
      have single := clients.single
      grind
    · simp only [requests, cancellations]
      intro c set
      obtain ⟨n, executing, context⟩ := clients.unset c set
      exact ⟨n, by grind⟩
  | some c =>
    have free := own c rfl
    have small : connection.handle + 1 < noId := room (by simp)
    have next : increment connection.handle = connection.handle + 1 :=
      Nat.mod_eq_of_lt (Nat.lt_of_lt_of_le small (by decide))
    have zero : (s.cancellations c).handle = 0 := by
      by_contra set
      obtain ⟨n, executing, context⟩ := clients.unset c set
      exact free n (made n executing) executing context
    have threads : ∀ other, (s.executeOperation thread connection (some c) method).threads other =
        if other = thread then ⟨some ⟨connection.connId, connection.handle + 1⟩, some s.created⟩
        else s.threads other := by
      intro other
      rw [← next]
      exact Function.update_apply _ _ _ _
    have requests : ∀ n, (s.executeOperation thread connection (some c) method).requests n =
        if n = s.created then
          ⟨thread, connection.connId, connection.handle + 1, some c, method, .prepared, true, false, none, none, []⟩
        else s.requests n := by
      intro n
      rw [← next]
      exact Function.update_apply _ _ _ _
    have created : (s.executeOperation thread connection (some c) method).created = s.created + 1 := rfl
    have cancellations : ∀ d, (s.executeOperation thread connection (some c) method).cancellations d =
        if d = c then ⟨(s.cancellations c).cancelled, connection.handle + 1, connection.connId⟩
        else s.cancellations d := by
      intro d
      rw [← next]
      exact Function.update_apply _ _ _ _
    have connId : (s.executeOperation thread connection (some c) method).connId = s.connId := rfl
    constructor
    · show (s.aborted || decide ((s.cancellations c).handle ≠ 0)) = false
      rw [clients.calm, zero]
      rfl
    · simp only [requests, created]
      have unmade := clients.unmade
      grind
    · simp only [requests, threads]
      have held := clients.held
      grind
    · simp only [requests, threads]
      have holds := clients.holds
      grind
    · simp only [threads, connId]
      have issued := clients.issued
      grind
    · simp only [threads]
      have apart := clients.apart
      grind
    · simp only [requests, threads]
      have below := clients.below
      have issued := clients.issued
      have apart := clients.apart
      grind
    · simp only [requests, connId]
      have numbered := clients.numbered
      have issued := clients.issued
      grind
    · simp only [requests]
      have anonymous := clients.anonymous
      grind
    · simp only [requests]
      have distinct := clients.distinct
      have below := clients.below
      grind
    · simp only [requests, cancellations]
      have handles := clients.handles
      grind
    · simp only [requests]
      have single := clients.single
      grind
    · simp only [requests, cancellations]
      intro d set
      by_cases this : d = c
      · refine ⟨s.created, ?_⟩
        rw [if_pos rfl, this]
        exact ⟨rfl, rfl⟩
      · rw [if_neg this] at set
        obtain ⟨n, executing, context⟩ := clients.unset d set
        have other : n ≠ s.created := Nat.ne_of_lt (made n executing)
        refine ⟨n, ?_⟩
        rw [if_neg other]
        exact ⟨executing, context⟩

end Invariant

end GnomeVfs.DaemonCancel
