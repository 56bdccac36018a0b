import GnomeVfs.Monitor

/- A monitor with the sources of the main loop that dispatch it. Any source that is installed may be
dispatched at any time, also by a main loop that a callback runs. -/
namespace GnomeVfs.MonitorDispatch

open Monitor Transition

/-- `GnomeVFSMonitorHandle`, as far as it changes. The pending timeout is the number of a source, and
0 where there is none. -/
structure Handle where
  cancelled : Bool
  inDispatch : Bool
  pendingCallbacks : List CallbackData
  pendingTimeout : Nat
  minSendAt : Nat
  deriving DecidableEq

/-- A call of `actually_dispatch_callback` for a source: it has read the clock and waits for the lock,
or runs the callbacks, those left with or without the first of them running. -/
inductive Frame where
  | timed (source now : Nat)
  | sending (source now : Nat) (left : List Nat) (running : Bool)
  deriving DecidableEq

def Frame.source : Frame → Nat
  | .timed source _ => source
  | .sending source _ _ _ => source

/-- The callbacks that have been collected and have not returned. -/
def Frame.left : Frame → List Nat
  | .timed _ _ => []
  | .sending _ _ left _ => left

/-- The callbacks that have been collected and have not been started. -/
def Frame.waiting : Frame → List Nat
  | .timed _ _ => []
  | .sending _ _ left false => left
  | .sending _ _ left true => left.tail

/-- The monitor, the sources installed for it, the calls that dispatch it, innermost first, and what
has been told of it and reported to the application. `dangling` is set where freed memory is used. -/
structure State where
  handle : Handle
  sources : List Nat
  lastSource : Nat
  frames : List Frame
  clock : Nat
  told : List (Bytes × EventType)
  started : List (Bytes × EventType)
  destroyed : Nat
  aborted : Bool
  dangling : Bool
  deriving DecidableEq

/-- `_gnome_vfs_monitor_do_add`. -/
def State.new (clock : Nat) : State :=
  { handle := ⟨false, false, [], 0, 0⟩, sources := [], lastSource := 0, frames := [], clock := clock, told := [],
    started := [], destroyed := 0, aborted := false, dangling := false }

/-- `g_source_remove`. -/
def State.sourceRemove (s : State) (source : Nat) : State := { s with sources := s.sources.filter (· ≠ source) }

def State.removeTimeout (s : State) : State :=
  if s.handle.pendingTimeout ≠ 0 then s.sourceRemove s.handle.pendingTimeout else s

def State.destroyMonitorHandle (s : State) : State :=
  let s := s.removeTimeout
  { s with handle := { s.handle with pendingCallbacks := [] }, destroyed := s.destroyed + 1 }

/-- `_gnome_vfs_monitor_do_cancel`, after the method has cancelled. -/
def State.monitorDoCancel (s : State) : State :=
  let s := { s with handle := { s.handle with cancelled := true } }
  if s.handle.inDispatch then s else s.destroyMonitorHandle

/-- `install_timeout`, where the main loop gives the new source this number. -/
def State.installTimeout (s : State) (source : Nat) : State :=
  let s := s.removeTimeout
  { s with
    handle := { s.handle with pendingTimeout := source }
    sources := s.sources ++ [source]
    lastSource := source }

def State.push (s : State) (data : CallbackData) (source : Nat) : State :=
  let s := { s with handle := { s.handle with pendingCallbacks := s.handle.pendingCallbacks ++ [data] } }
  if s.handle.minSendAt = 0 ∨ data.sendAt < s.handle.minSendAt then
    { s with handle := { s.handle with minSendAt := data.sendAt } }.installTimeout source
  else s

def State.sendUriChangesNow (s : State) (uri : Bytes) (now : Nat) : State :=
  { s with handle := { s.handle with pendingCallbacks := Monitor.sendUriChangesNow s.handle.pendingCallbacks uri now } }

/-- `gnome_vfs_monitor_callback`, from where the handle has been found. -/
def State.monitorCallback (s : State) (uri : Bytes) (eventType : EventType) (now source : Nat) : State :=
  if s.handle.cancelled then s
  else match lastData s.handle.pendingCallbacks uri with
    | none => s.push ⟨uri, eventType, .notSent, now⟩ source
    | some (_, last) =>
      if last.eventType ≠ eventType then
        (s.sendUriChangesNow uri now).push ⟨uri, eventType, .notSent, now⟩ source
      else if last.sendState = .sent then
        s.push ⟨uri, eventType, .notSent, last.sendAt + consecutiveCallbackDelay⟩ source
      else s

/-- `actually_dispatch_callback`, with the lock held, before anything is dispatched. -/
def Handle.collect (h : Handle) (now : Nat) : Handle :=
  { h with
    inDispatch := true
    pendingCallbacks := h.pendingCallbacks.map fun data =>
      if data.due now then { data with sendState := .sending } else data }

/-- A callback has returned. -/
def Handle.markSent (h : Handle) (place : Nat) : Handle :=
  { h with pendingCallbacks := h.pendingCallbacks.modify place fun data => { data with sendState := .sent } }

/-- What the end of `actually_dispatch_callback` leaves in the queue. -/
def Handle.remaining (h : Handle) (now : Nat) : List CallbackData :=
  h.pendingCallbacks.filter fun data => ¬ data.atEnd now

/-- `actually_dispatch_callback`, from where the lock is taken again. -/
def State.settle (s : State) (now source : Nat) : State :=
  let s := { s with
    handle := { s.handle with inDispatch := false, pendingCallbacks := s.handle.remaining now } }
  if s.handle.cancelled then s.destroyMonitorHandle
  else if noLiveCallbacks s.handle.pendingCallbacks then
    { s with handle := { s.handle with pendingTimeout := 0, minSendAt := 0 } }
  else { s with handle := { s.handle with minSendAt := getMinSendAt s.handle.pendingCallbacks } }.installTimeout source

inductive Event where
  | enter (uri : Bytes) (eventType : EventType) (now source : Nat)
  | cancel
  | wake (source now : Nat)
  | collect
  | start
  | finish
  | settle (source : Nat)
  deriving DecidableEq

/-- The main loop's thread runs code of the application. -/
def State.outside (s : State) : Bool :=
  match s.frames with
  | [] => true
  | .timed _ _ :: _ => false
  | .sending _ _ _ running :: _ => running

def State.sendingAny (s : State) : Bool := s.handle.pendingCallbacks.any fun data => data.sendState = .sending

/-- A step that uses the handle, and finds it freed or takes the monitor on. -/
def State.use (s t : State) : State := if s.destroyed ≠ 0 then { s with dangling := true } else t

/-- `actually_dispatch_callback`, from where it has taken the lock to where it gives it up. -/
def State.collect (s : State) (source now : Nat) (frames : List Frame) : State :=
  if s.handle.cancelled then
    State.sourceRemove { s with
      handle := { s.handle with inDispatch := false }
      frames := frames }.destroyMonitorHandle source
  else { s with
    handle := s.handle.collect now
    frames := .sending source now (dispatched s.handle.pendingCallbacks now) false :: frames
    aborted := s.sendingAny }

/-- Nothing goes on after a failed assertion or a use of freed memory. The table finds no handle that
has been destroyed, and the application uses no handle that it has cancelled. -/
def State.step (s : State) (event : Event) : Option State :=
  if s.aborted ∨ s.dangling then none
  else match event with
    | .enter uri eventType now source =>
      if s.destroyed ≠ 0 then none
      else some (State.monitorCallback { s with
        clock := now
        told := if s.handle.cancelled then s.told else s.told ++ [(uri, eventType)] } uri eventType now source)
    | .cancel => if s.handle.cancelled then none else some s.monitorDoCancel
    | .wake source now =>
      if source ∈ s.sources ∧ source ∉ s.frames.map (·.source) ∧ s.outside then
        some { s with frames := .timed source now :: s.frames, clock := now }
      else none
    | .collect =>
      match s.frames with
      | .timed source now :: frames => some (s.use (s.collect source now frames))
      | _ => none
    | .start =>
      match s.frames with
      | .sending source now (place :: left) false :: frames =>
        (s.handle.pendingCallbacks[place]?).map fun data =>
          s.use { s with
            frames := .sending source now (place :: left) true :: frames
            started := s.started ++ [(data.infoUri, data.eventType)] }
      | _ => none
    | .finish =>
      match s.frames with
      | .sending source now (place :: left) true :: frames =>
        some (s.use { s with handle := s.handle.markSent place, frames := .sending source now left false :: frames })
      | _ => none
    | .settle next =>
      match s.frames with
      | .sending source now [] _ :: frames =>
        some (s.use (State.sourceRemove (State.settle { s with
          frames := frames
          aborted := s.sendingAny } now next) source))
      | _ => none

/-- The main loop numbers its sources in order. -/
def State.allowed (s : State) : Event → Prop
  | .enter _ _ _ source | .settle source => s.lastSource < source
  | _ => True

instance (s : State) : ∀ event : Event, Decidable (s.allowed event)
  | .enter _ _ _ source | .settle source => inferInstanceAs (Decidable (s.lastSource < source))
  | .cancel | .wake _ _ | .collect | .start | .finish => .isTrue trivial

/-- Clock readings do not decrease, and stay small. -/
def State.clocked (s : State) : Event → Prop
  | .enter _ _ now _ | .wake _ now => s.clock ≤ now ∧ now < 2 ^ 31 - 2
  | _ => True

instance (s : State) : ∀ event : Event, Decidable (s.clocked event)
  | .enter _ _ now _ | .wake _ now => inferInstanceAs (Decidable (s.clock ≤ now ∧ now < 2 ^ 31 - 2))
  | .cancel | .collect | .start | .finish | .settle _ => .isTrue trivial

/-- No callback of the monitor runs the main loop so far that the monitor is dispatched again. -/
def State.unnested (s : State) : Event → Prop
  | .wake _ _ => s.frames = []
  | _ => True

instance (s : State) : ∀ event : Event, Decidable (s.unnested event)
  | .wake _ _ => inferInstanceAs (Decidable (s.frames = []))
  | .enter _ _ _ _ | .cancel | .collect | .start | .finish | .settle _ => .isTrue trivial

/-- The monitor is cancelled from the main loop's thread. -/
def State.onMainLoop (s : State) : Event → Prop
  | .cancel => s.outside = true
  | _ => True

instance (s : State) : ∀ event : Event, Decidable (s.onMainLoop event)
  | .cancel => inferInstanceAs (Decidable (s.outside = true))
  | .enter _ _ _ _ | .wake _ _ | .collect | .start | .finish | .settle _ => .isTrue trivial

/-- A dispatch that leaves nothing to deliver ends with the source as the pending timeout that it was
started by. -/
def Frame.tidy (h : Handle) : Frame → Prop
  | .timed _ _ => True
  | .sending source now _ _ =>
    h.cancelled = false → noLiveCallbacks (h.remaining now) = true → h.pendingTimeout = source

instance (h : Handle) : ∀ frame : Frame, Decidable (frame.tidy h)
  | .timed _ _ => .isTrue trivial
  | .sending source now _ _ => inferInstanceAs (Decidable
      (h.cancelled = false → noLiveCallbacks (h.remaining now) = true → h.pendingTimeout = source))

def State.tidy (s : State) : Event → Prop
  | .settle _ => ∀ frame ∈ s.frames.head?, frame.tidy s.handle
  | _ => True

instance (s : State) : ∀ event : Event, Decidable (s.tidy event)
  | .settle _ => inferInstanceAs (Decidable (∀ frame ∈ s.frames.head?, frame.tidy s.handle))
  | .enter _ _ _ _ | .cancel | .wake _ _ | .collect | .start | .finish => .isTrue trivial

/-- A callback that cancels the monitor is the last of its batch. -/
def State.lastOfBatch (s : State) : Event → Prop
  | .cancel => ∀ frame ∈ s.frames, frame.waiting = []
  | _ => True

instance (s : State) : ∀ event : Event, Decidable (s.lastOfBatch event)
  | .cancel => inferInstanceAs (Decidable (∀ frame ∈ s.frames, frame.waiting = []))
  | .enter _ _ _ _ | .wake _ _ | .collect | .start | .finish | .settle _ => .isTrue trivial

end GnomeVfs.MonitorDispatch
