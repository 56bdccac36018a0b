import GnomeVfs.CString
import GnomeVfs.Transition

/- A monitored file: threads of its method tell of changes, which are queued and later dispatched to
the application by the main loop. -/
namespace GnomeVfs.Monitor

/-- `GnomeVFSMonitorEventType`. -/
inductive EventType where
  | changed | deleted | startExecuting | stopExecuting | created | metadataChanged
  deriving DecidableEq, Repr

inductive CallbackState where
  | notSent | sending | sent
  deriving DecidableEq, Repr

/-- `GnomeVFSMonitorCallbackData`. -/
structure CallbackData where
  infoUri : Bytes
  eventType : EventType
  sendState : CallbackState
  sendAt : Nat
  deriving DecidableEq

def consecutiveCallbackDelay : Nat := 2

/-- `GnomeVFSMonitorHandle`, as far as it changes. Of a pending timeout it is known from when on it
may be dispatched. -/
structure Handle where
  cancelled : Bool
  inDispatch : Bool
  pendingCallbacks : List CallbackData
  pendingTimeout : Option Nat
  minSendAt : Nat
  destroyed : Bool
  deriving DecidableEq

/-- `_gnome_vfs_monitor_do_add`. -/
def Handle.new : Handle := ⟨false, false, [], none, 0, false⟩

def noLiveCallbacks (pending : List CallbackData) : Bool :=
  pending.all fun data => data.sendState ≠ .notSent ∧ data.sendState ≠ .sending

def destroyMonitorHandle (h : Handle) : Handle :=
  { h with pendingCallbacks := [], pendingTimeout := none, destroyed := true }

/-- `_gnome_vfs_monitor_do_cancel`, after the method has cancelled. -/
def monitorDoCancel (h : Handle) : Handle :=
  if h.inDispatch then { h with cancelled := true } else destroyMonitorHandle { h with cancelled := true }

/-- `install_timeout`. -/
def installTimeout (h : Handle) (now : Nat) : Handle := { h with pendingTimeout := some (max now h.minSendAt) }

/-- `send_uri_changes_now`. -/
def sendUriChangesNow (pending : List CallbackData) (uri : Bytes) (now : Nat) : List CallbackData :=
  pending.map fun data => if data.sendState ≠ .sent ∧ data.infoUri = uri then { data with sendAt := now } else data

/-- `get_min_send_at`. -/
def getMinSendAt (pending : List CallbackData) : Nat :=
  pending.foldl (fun least data => if data.sendState = .notSent then min least data.sendAt else least) (2 ^ 31 - 1)

/-- Where the last queued callback for a URI stands. -/
def lastData (pending : List CallbackData) (uri : Bytes) : Option (Nat × CallbackData) :=
  (pending.zipIdx.reverse.find? fun entry => entry.1.infoUri = uri).map fun entry => (entry.2, entry.1)

def Handle.push (h : Handle) (data : CallbackData) (now : Nat) : Handle :=
  let h := { h with pendingCallbacks := h.pendingCallbacks ++ [data] }
  if h.minSendAt = 0 ∨ data.sendAt < h.minSendAt then installTimeout { h with minSendAt := data.sendAt } now else h

/-- `gnome_vfs_monitor_callback`, from where the handle has been found. -/
def monitorCallback (h : Handle) (uri : Bytes) (eventType : EventType) (now : Nat) : Handle :=
  if h.cancelled then h
  else match lastData h.pendingCallbacks uri with
    | none => h.push ⟨uri, eventType, .notSent, now⟩ now
    | some (_, last) =>
      if last.eventType ≠ eventType then
        -- a new type: older events are not held back any longer
        { h with pendingCallbacks := sendUriChangesNow h.pendingCallbacks uri now }.push
          ⟨uri, eventType, .notSent, now⟩ now
      else if last.sendState = .sent then
        h.push ⟨uri, eventType, .notSent, last.sendAt + consecutiveCallbackDelay⟩ now
      else h

def CallbackData.due (data : CallbackData) (now : Nat) : Bool := data.sendState = .notSent ∧ data.sendAt ≤ now

/-- The callbacks that are to be dispatched, by their places in the queue. -/
def dispatched (pending : List CallbackData) (now : Nat) : List Nat :=
  (List.range pending.length).filter fun place => (pending[place]?).any (·.due now)

/-- `actually_dispatch_callback`, with the lock held, before anything is dispatched. -/
def collect (h : Handle) (now : Nat) : Handle :=
  { h with
    inDispatch := true
    pendingCallbacks := h.pendingCallbacks.map fun data =>
      if data.due now then { data with sendState := .sending } else data }

/-- A callback has returned. -/
def markSent (h : Handle) (place : Nat) : Handle :=
  { h with pendingCallbacks := h.pendingCallbacks.modify place fun data => { data with sendState := .sent } }

/-- What has been sent and does not hold back events to come. -/
def CallbackData.atEnd (data : CallbackData) (now : Nat) : Bool :=
  data.sendState = .sent ∧ data.sendAt + consecutiveCallbackDelay ≤ now

/-- `actually_dispatch_callback`, from where the lock is taken again. -/
def settle (h : Handle) (now : Nat) : Handle :=
  let h := { h with
    inDispatch := false
    pendingCallbacks := h.pendingCallbacks.filter fun data => ¬ data.atEnd now }
  if h.cancelled then destroyMonitorHandle h
  else if noLiveCallbacks h.pendingCallbacks then { h with pendingTimeout := none, minSendAt := 0 }
  else installTimeout { h with minSendAt := getMinSendAt h.pendingCallbacks } now

/-- A call of `gnome_vfs_monitor_callback`, with the number of callbacks that had been started when it
began. It is `late` where it has been merged with a callback that was already running then. -/
structure Call where
  uri : Bytes
  eventType : EventType
  begun : Nat
  returned : Bool
  late : Bool
  deriving DecidableEq

/-- Where the main loop is: it has read the clock and waits for the lock, or runs the callbacks, those
left with or without the first of them running. -/
inductive Loop where
  | idle
  | timed (now : Nat)
  | sending (now : Nat) (left : List Nat) (running : Bool)
  deriving DecidableEq

structure State where
  handle : Handle
  loop : Loop
  clock : Nat
  started : List (Bytes × EventType)
  calls : List Call
  aborted : Bool
  deriving DecidableEq

def State.new (clock : Nat) : State := ⟨.new, .idle, clock, [], [], false⟩

inductive Event where
  | begin (uri : Bytes) (eventType : EventType)
  | enter (call : Nat) (now : Nat)
  | cancel
  | wake (now : Nat)
  | collect
  | start
  | finish
  | settle
  deriving DecidableEq

/-- The last queued callback for the URI is of this type, and it has been running since before the
call began. -/
def State.late (s : State) (call : Call) : Bool :=
  match s.loop, lastData s.handle.pendingCallbacks call.uri with
  | .sending _ (running :: _) true, some (place, last) =>
    place = running ∧ last.eventType = call.eventType ∧ call.begun = s.started.length
  | _, _ => false

def State.step (s : State) : Event → Option State
  | .begin uri eventType => some { s with calls := s.calls ++ [⟨uri, eventType, s.started.length, false, false⟩] }
  | .enter i now =>
    match s.calls[i]? with
    | some call =>
      if s.handle.destroyed ∨ call.returned then none
      else some { s with
        handle := monitorCallback s.handle call.uri call.eventType now
        clock := now
        calls := s.calls.set i { call with returned := true, late := s.late call } }
    | none => none
  | .cancel => if s.handle.cancelled then none else some { s with handle := monitorDoCancel s.handle }
  | .wake now =>
    if s.loop = .idle ∧ s.handle.pendingTimeout.isSome then some { s with loop := .timed now, clock := now } else none
  | .collect =>
    match s.loop with
    | .timed now =>
      if s.handle.destroyed then none
      else if s.handle.cancelled then
        some { s with handle := destroyMonitorHandle { s.handle with inDispatch := false }, loop := .idle }
      else some { s with
        handle := Monitor.collect s.handle now
        loop := .sending now (dispatched s.handle.pendingCallbacks now) false
        aborted := s.aborted || s.handle.pendingCallbacks.any fun data => data.sendState = .sending }
    | _ => none
  | .start =>
    match s.loop with
    | .sending now (place :: left) false =>
      (s.handle.pendingCallbacks[place]?).map fun data =>
        { s with
          loop := .sending now (place :: left) true
          started := s.started ++ [(data.infoUri, data.eventType)] }
    | _ => none
  | .finish =>
    match s.loop with
    | .sending now (place :: left) true =>
      some { s with handle := markSent s.handle place, loop := .sending now left false }
    | _ => none
  | .settle =>
    match s.loop with
    | .sending now [] _ =>
      some { s with
        handle := Monitor.settle s.handle now
        loop := .idle
        aborted := s.aborted || s.handle.pendingCallbacks.any fun data => data.sendState = .sending }
    | _ => none

/-- Clock readings do not decrease, and stay small. -/
def State.allowed (s : State) : Event → Prop
  | .enter _ now | .wake now => s.clock ≤ now ∧ now < 2 ^ 31 - 2
  | _ => True

instance (s : State) : ∀ event : Event, Decidable (s.allowed event)
  | .enter _ now | .wake now => inferInstanceAs (Decidable (s.clock ≤ now ∧ now < 2 ^ 31 - 2))
  | .begin _ _ | .cancel | .collect | .start | .finish | .settle => .isTrue trivial

end GnomeVfs.Monitor
