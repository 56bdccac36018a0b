import GnomeVfs.MonitorOrder

/- The monitors of all methods, and the table that finds them by the method's handle. A method may give
out a handle again as soon as its `monitor_cancel` has returned. -/
namespace GnomeVfs.MonitorDispatch

open Monitor Transition

/-- A monitor with its method handle: `_gnome_vfs_monitor_do_add` has put it into the table, and the
method's `monitor_cancel` has returned. -/
structure Entry where
  methodHandle : Nat
  added : Bool
  cancelling : Bool
  state : State

/-- The application has the monitor and has not cancelled it. -/
def Entry.live (entry : Entry) : Bool := entry.added && !entry.cancelling

structure World where
  monitors : List Entry
  handleHash : Nat → Option Nat

def World.new : World := ⟨[], fun _ => none⟩

inductive WorldEvent where
  /-- The method's `monitor_add` returns with a handle, and then the monitor is put into the table. -/
  | monitorAdd (methodHandle clock : Nat)
  | insert (monitor : Nat)
  /-- The method's `monitor_cancel` returns, and then the rest of `_gnome_vfs_monitor_do_cancel` is done. -/
  | monitorCancel (monitor : Nat)
  | cancel (monitor : Nat)
  /-- `gnome_vfs_monitor_callback`, which waits until the table knows the handle. -/
  | callback (methodHandle : Nat) (uri : Bytes) (eventType : EventType) (now source : Nat)
  | dispatch (monitor : Nat) (event : Event)

/-- The event is one of the main loop or of `actually_dispatch_callback`. -/
def Event.dispatches : Event → Bool
  | .enter _ _ _ _ | .cancel => false
  | .wake _ _ | .collect | .start | .finish | .settle _ => true

def World.update (w : World) (monitor : Nat) (entry : Entry) : World :=
  { w with monitors := w.monitors.set monitor entry }

/-- A step of one monitor, after which `destroy_monitor_handle` has taken its method handle out of the
table if it has been called. -/
def World.advance (w : World) (monitor : Nat) (entry : Entry) (event : Event) : Option World :=
  (entry.state.step event).map fun state =>
    { w.update monitor { entry with state := state } with
      handleHash := if entry.state.destroyed < state.destroyed then Function.update w.handleHash entry.methodHandle none
        else w.handleHash }

def World.step (w : World) : WorldEvent → Option World
  | .monitorAdd methodHandle clock =>
    some { w with monitors := w.monitors ++ [⟨methodHandle, false, false, State.new clock⟩] }
  | .insert monitor =>
    match w.monitors[monitor]? with
    | some entry =>
      if entry.added then none
      else some { w.update monitor { entry with added := true } with
        handleHash := Function.update w.handleHash entry.methodHandle (some monitor) }
    | none => none
  | .monitorCancel monitor =>
    match w.monitors[monitor]? with
    | some entry => if entry.live then some (w.update monitor { entry with cancelling := true }) else none
    | none => none
  | .cancel monitor =>
    match w.monitors[monitor]? with
    | some entry => if entry.cancelling then w.advance monitor entry .cancel else none
    | none => none
  | .callback methodHandle uri eventType now source =>
    match w.handleHash methodHandle with
    | some monitor =>
      match w.monitors[monitor]? with
      | some entry => w.advance monitor entry (.enter uri eventType now source)
      | none => none
    | none => none
  | .dispatch monitor event =>
    match w.monitors[monitor]? with
    | some entry => if event.dispatches then w.advance monitor entry event else none
    | none => none

/-- A method gives out no handle that it has given out and not taken back. -/
def World.allowed (w : World) : WorldEvent → Prop
  | .monitorAdd methodHandle _ => ∀ entry ∈ w.monitors, entry.methodHandle = methodHandle → entry.cancelling = true
  | _ => True

/-- The event makes the monitor call `destroy_monitor_handle`. -/
def State.destroys (s : State) : Event → Bool
  | .cancel => !s.handle.inDispatch
  | .collect | .settle _ => s.handle.cancelled
  | _ => false

/-- A monitor is destroyed only while no other has its method handle, and not used after that. -/
def World.careful (w : World) : WorldEvent → Prop
  | .cancel monitor => ∀ entry ∈ w.monitors[monitor]?, entry.state.destroys .cancel = true →
      ∀ other ∈ w.monitors, other.live = true → other.methodHandle ≠ entry.methodHandle
  | .dispatch monitor event => ∀ entry ∈ w.monitors[monitor]?, entry.state.destroyed = 0 ∧
      (entry.state.destroys event = true →
        ∀ other ∈ w.monitors, other.live = true → other.methodHandle ≠ entry.methodHandle)
  | _ => True

section Steps

variable {s t : State} {event : Event}

theorem State.monitorCallback_destroyed (s : State) (uri : Bytes) (eventType : EventType) (now source : Nat) :
    (s.monitorCallback uri eventType now source).destroyed = s.destroyed := by
  have pushed : ∀ (s : State) (data : CallbackData), (s.push data source).destroyed = s.destroyed := by
    intro s data
    unfold State.push
    dsimp only
    split
    · rw [State.installTimeout, State.removeTimeout_eq]
    · rfl
  cases live : s.handle.cancelled with
  | true =>
    rw [State.monitorCallback, if_pos live]
  | false =>
    rcases State.monitorCallback_cases uri eventType now source live with
      ⟨_, _, _, _, _, same⟩ | ⟨_, same⟩ | same | ⟨_, _, _, _, _, same⟩
    · rw [same]
    · rw [same]
      exact pushed s _
    · rw [same]
      exact pushed (s.sendUriChangesNow uri now) _
    · rw [same]
      exact pushed s _

/-- A step destroys the monitor only where it is said to. -/
theorem State.step_destroys (stepped : s.step event = some t) (more : s.destroyed < t.destroyed) :
    s.destroys event = true := by
  have used : ∀ {u : State}, s.destroyed < (s.use u).destroyed → s.destroyed < u.destroyed := by
    intro u more
    rw [State.use] at more
    split at more
    · exact absurd more (Nat.lt_irrefl _)
    · exact more
  unfold State.step at stepped
  split at stepped
  · cases stepped
  cases event with
  | enter uri eventType now source =>
    dsimp only at stepped
    split at stepped
    · cases stepped
    · cases stepped
      rw [State.monitorCallback_destroyed] at more
      exact absurd more (Nat.lt_irrefl _)
  | cancel =>
    dsimp only at stepped
    split at stepped
    · cases stepped
    · cases stepped
      unfold State.monitorDoCancel at more
      dsimp only at more
      split at more
      · exact absurd more (Nat.lt_irrefl _)
      · rename_i resting
        simpa [State.destroys] using resting
  | wake source now =>
    dsimp only at stepped
    split at stepped
    · cases stepped
      exact absurd more (Nat.lt_irrefl _)
    · cases stepped
  | collect =>
    dsimp only at stepped
    split at stepped
    · cases stepped
      have more := used more
      unfold State.collect at more
      split at more
      · rename_i cancelled
        exact cancelled
      · exact absurd more (Nat.lt_irrefl _)
    · cases stepped
  | start =>
    dsimp only at stepped
    split at stepped
    · obtain ⟨data, -, rfl⟩ := Option.map_eq_some_iff.mp stepped
      exact absurd (used more) (Nat.lt_irrefl _)
    · cases stepped
  | finish =>
    dsimp only at stepped
    split at stepped
    · cases stepped
      exact absurd (used more) (Nat.lt_irrefl _)
    · cases stepped
  | settle next =>
    dsimp only at stepped
    split at stepped
    · cases stepped
      have more := used more
      unfold State.settle at more
      dsimp only at more
      split at more
      · rename_i cancelled
        exact cancelled
      · split at more
        · exact absurd more (Nat.lt_irrefl _)
        · rw [State.installTimeout, State.removeTimeout_eq] at more
          exact absurd more (Nat.lt_irrefl _)
    · cases stepped

end Steps

section Invariant

/-- The table finds every live monitor, and no handle has been given out twice. -/
structure World.Finds (w : World) : Prop where
  found : ∀ (monitor : Nat) (entry : Entry), w.monitors[monitor]? = some entry → entry.live = true →
    w.handleHash entry.methodHandle = some monitor
  apart : ∀ (i j : Nat) (a b : Entry), w.monitors[i]? = some a → w.monitors[j]? = some b → a.cancelling = false →
    b.cancelling = false → a.methodHandle = b.methodHandle → i = j
  early : ∀ entry ∈ w.monitors, entry.added = false → entry.cancelling = false

variable {w v : World} {monitor : Nat} {entry : Entry} {event : Event}

theorem World.update_cases {changed other : Entry} {i : Nat} (here : w.monitors[monitor]? = some entry)
    (there : (w.update monitor changed).monitors[i]? = some other) :
    i = monitor ∧ other = changed ∨ i ≠ monitor ∧ w.monitors[i]? = some other := by
  have there : (w.monitors.set monitor changed)[i]? = some other := there
  by_cases this : i = monitor
  · rw [this, List.getElem?_set_self (List.getElem?_eq_some_iff.mp here).1] at there
    exact Or.inl ⟨this, (Option.some.inj there).symm⟩
  · rw [List.getElem?_set_ne (Ne.symm this)] at there
    exact Or.inr ⟨this, there⟩

theorem World.Finds.update_apart (finds : w.Finds) (here : w.monitors[monitor]? = some entry) (changed : Entry)
    (handle : changed.methodHandle = entry.methodHandle) (taken : changed.cancelling = false → entry.cancelling = false)
    {i j : Nat} {a b : Entry} (first : (w.update monitor changed).monitors[i]? = some a)
    (second : (w.update monitor changed).monitors[j]? = some b) (aTaken : a.cancelling = false)
    (bTaken : b.cancelling = false) (same : a.methodHandle = b.methodHandle) : i = j := by
  rcases World.update_cases here first with ⟨rfl, rfl⟩ | ⟨-, aOld⟩
  · rcases World.update_cases here second with ⟨rfl, rfl⟩ | ⟨-, bOld⟩
    · rfl
    · exact finds.apart i j entry b here bOld (taken aTaken) bTaken (handle.symm.trans same)
  · rcases World.update_cases here second with ⟨rfl, rfl⟩ | ⟨-, bOld⟩
    · exact finds.apart i j a entry aOld here aTaken (taken bTaken) (same.trans handle)
    · exact finds.apart i j a b aOld bOld aTaken bTaken same

theorem World.Finds.update (finds : w.Finds) (here : w.monitors[monitor]? = some entry) {changed : Entry}
    (handle : changed.methodHandle = entry.methodHandle) (live : changed.live = true → entry.live = true)
    (taken : changed.cancelling = false → entry.cancelling = false)
    (early : changed.added = false → changed.cancelling = false) : (w.update monitor changed).Finds := by
  constructor
  · intro i other there alive
    rcases World.update_cases here there with ⟨rfl, rfl⟩ | ⟨-, old⟩
    · rw [handle]
      exact finds.found i entry here (live alive)
    · exact finds.found i other old alive
  · intro i j a b first second
    exact finds.update_apart here _ handle taken first second
  · intro other member
    rcases List.mem_or_eq_of_mem_set member with old | rfl
    · exact finds.early other old
    · exact early

theorem World.Finds.advance (finds : w.Finds) (here : w.monitors[monitor]? = some entry)
    (careful : entry.state.destroys event = true →
      ∀ other ∈ w.monitors, other.live = true → other.methodHandle ≠ entry.methodHandle)
    (advanced : w.advance monitor entry event = some v) : v.Finds := by
  obtain ⟨state, stepped, rfl⟩ := Option.map_eq_some_iff.mp advanced
  have updated : (w.update monitor { entry with state := state }).Finds := finds.update here rfl id id
    (finds.early entry (List.mem_of_getElem? here))
  split
  · rename_i more
    refine ⟨?_, updated.apart, updated.early⟩
    intro i other there alive
    have apart : other.methodHandle ≠ entry.methodHandle := by
      have alone := careful (State.step_destroys stepped more)
      rcases World.update_cases here there with ⟨-, rfl⟩ | ⟨-, old⟩
      · exact absurd rfl (alone entry (List.mem_of_getElem? here) alive)
      · exact alone other (List.mem_of_getElem? old) alive
    show Function.update w.handleHash entry.methodHandle none other.methodHandle = some i
    rw [Function.update_of_ne apart]
    exact updated.found i other there alive
  · exact updated

theorem World.Finds.step {event : WorldEvent} (finds : w.Finds) (allowed : w.allowed event) (careful : w.careful event)
    (stepped : w.step event = some v) : v.Finds := by
  cases event with
  | monitorAdd methodHandle clock =>
    cases stepped
    have old : ∀ {i : Nat} {other : Entry},
        (w.monitors ++ [⟨methodHandle, false, false, State.new clock⟩])[i]? = some other →
        w.monitors[i]? = some other ∨
          i = w.monitors.length ∧ other = ⟨methodHandle, false, false, State.new clock⟩ := by
      intro i other there
      by_cases inside : i < w.monitors.length
      · rw [List.getElem?_append_left inside] at there
        exact Or.inl there
      · have last := (List.getElem?_eq_some_iff.mp there).1
        rw [List.length_append, List.length_singleton] at last
        rw [List.getElem?_append_right (by omega)] at there
        exact Or.inr ⟨by omega, List.mem_singleton.mp (List.mem_of_getElem? there)⟩
    -- a handle that is given out again belongs to nobody
    have free : ∀ {i : Nat} {other : Entry}, w.monitors[i]? = some other → other.cancelling = false →
        other.methodHandle ≠ methodHandle := by
      intro i other there taken same
      rw [allowed other (List.mem_of_getElem? there) same] at taken
      cases taken
    constructor
    · intro i other there alive
      rcases old there with there | ⟨-, rfl⟩
      · exact finds.found i other there alive
      · cases alive
    · intro i j a b first second aTaken bTaken same
      rcases old first with first | ⟨iLast, aNew⟩
      · rcases old second with second | ⟨-, rfl⟩
        · exact finds.apart i j a b first second aTaken bTaken same
        · exact absurd same (free first aTaken)
      · rcases old second with second | ⟨jLast, -⟩
        · rw [aNew] at same
          exact absurd same.symm (free second bTaken)
        · rw [iLast, jLast]
    · intro other member
      rcases List.mem_append.mp member with before | new
      · exact finds.early other before
      · rw [List.mem_singleton.mp new]
        exact fun _ => rfl
  | insert monitor =>
    rw [World.step] at stepped
    split at stepped
    · rename_i entry here
      split at stepped
      · cases stepped
      · rename_i fresh
        cases stepped
        have taken : entry.cancelling = false :=
          finds.early entry (List.mem_of_getElem? here) (by simpa using fresh)
        have apart : ∀ {i : Nat} {other : Entry}, i ≠ monitor → w.monitors[i]? = some other → other.live = true →
            other.methodHandle ≠ entry.methodHandle := by
          intro i other away old alive same
          simp only [Entry.live, Bool.and_eq_true, Bool.not_eq_true'] at alive
          exact away (finds.apart i monitor other entry old here alive.2 taken same)
        refine ⟨?_, ?_, ?_⟩
        · intro i other there alive
          show Function.update w.handleHash entry.methodHandle (some monitor) other.methodHandle = some i
          rcases World.update_cases here there with ⟨rfl, rfl⟩ | ⟨away, old⟩
          · exact Function.update_self _ _ _
          · rw [Function.update_of_ne (apart away old alive)]
            exact finds.found i other old alive
        · intro i j a b first second
          exact finds.update_apart here { entry with added := true } rfl id first second
        · intro other member
          rcases List.mem_or_eq_of_mem_set member with old | rfl
          · exact finds.early other old
          · exact fun _ => taken
    · cases stepped
  | monitorCancel monitor =>
    rw [World.step] at stepped
    split at stepped
    · rename_i entry here
      split at stepped
      · cases stepped
        rename_i alive
        refine finds.update here rfl ?_ ?_ ?_
        · intro never
          simp [Entry.live] at never
        · intro never
          cases never
        · intro never
          simp only [Entry.live, Bool.and_eq_true] at alive
          rw [alive.1] at never
          cases never
      · cases stepped
    · cases stepped
  | cancel monitor =>
    rw [World.step] at stepped
    split at stepped
    · rename_i entry here
      split at stepped
      · exact finds.advance here (careful entry here) stepped
      · cases stepped
    · cases stepped
  | callback methodHandle uri eventType now source =>
    rw [World.step] at stepped
    split at stepped
    · split at stepped
      · rename_i entry here
        exact finds.advance here (fun never => by cases never) stepped
      · cases stepped
    · cases stepped
  | dispatch monitor event =>
    rw [World.step] at stepped
    split at stepped
    · rename_i entry here
      split at stepped
      · exact finds.advance here (careful entry here).2 stepped
      · cases stepped
    · cases stepped

end Invariant

instance (w : World) : ∀ event : WorldEvent, Decidable (w.allowed event)
  | .monitorAdd methodHandle _ => inferInstanceAs
      (Decidable (∀ entry ∈ w.monitors, entry.methodHandle = methodHandle → entry.cancelling = true))
  | .insert _ | .monitorCancel _ | .cancel _ | .callback _ _ _ _ _ | .dispatch _ _ => .isTrue trivial

instance decidableWorldCareful (w : World) : ∀ event : WorldEvent, Decidable (w.careful event)
  | .cancel monitor => inferInstanceAs (Decidable (∀ entry ∈ w.monitors[monitor]?,
      entry.state.destroys .cancel = true →
        ∀ other ∈ w.monitors, other.live = true → other.methodHandle ≠ entry.methodHandle))
  | .dispatch monitor event => inferInstanceAs (Decidable (∀ entry ∈ w.monitors[monitor]?, entry.state.destroyed = 0 ∧
      (entry.state.destroys event = true →
        ∀ other ∈ w.monitors, other.live = true → other.methodHandle ≠ entry.methodHandle)))
  | .monitorAdd _ _ | .insert _ | .monitorCancel _ | .callback _ _ _ _ _ => .isTrue trivial

/-- Where no monitor is destroyed while another has its method handle, and none is used after that: in every
state the table maps the method handle of each live monitor to it, so a callback for it finds it at once. -/
theorem World.run_finds {w : World}
    (run : Run World.step (fun w e => w.allowed e ∧ w.careful e) World.new w) {monitor : Nat} {entry : Entry}
    (here : w.monitors[monitor]? = some entry) (live : entry.live = true) :
    w.handleHash entry.methodHandle = some monitor := by
  have finds : w.Finds := by
    apply run.keeps (P := World.Finds)
    · constructor
      · intro monitor entry never
        cases never
      · intro i j a b never
        cases never
      · intro entry never
        cases never
    · intro w event v finds fits stepped
      exact finds.step fits.1 fits.2 stepped
  exact finds.found monitor entry here live

/-- A monitor is cancelled, and its method handle is given out again. -/
def reused : List WorldEvent := [.monitorAdd 7 5, .insert 0, .monitorCancel 0, .cancel 0, .monitorAdd 7 5, .insert 1]

theorem World.run_finds_reused : ∃ (w : World) (entry : Entry), w.monitors[1]? = some entry ∧ entry.live = true ∧ entry.methodHandle = 7 ∧
    w.handleHash entry.methodHandle = some 1 := by
  have run : ∃ w, reused.foldlM (guarded World.step fun w e => w.allowed e ∧ w.careful e) World.new = some w ∧
      ∃ entry, w.monitors[1]? = some entry ∧ entry.live = true ∧ entry.methodHandle = 7 :=
    ⟨_, rfl, _, rfl, rfl, rfl⟩
  obtain ⟨w, followed, entry, here, live, handle⟩ := run
  exact ⟨w, entry, here, live, handle, World.run_finds (Run.of_foldlM _ followed) here live⟩

/-- A callback cancels its monitor, and adds another, which gets the same method handle. -/
def replaced : List WorldEvent :=
  [.monitorAdd 7 5, .insert 0, .callback 7 [47] .changed 5 1, .dispatch 0 (.wake 1 5), .dispatch 0 .collect,
    .dispatch 0 .start, .monitorCancel 0, .cancel 0, .monitorAdd 7 5, .insert 1, .dispatch 0 .finish,
    .dispatch 0 (.settle 2)]

/-- Another thread adds a monitor while the first one is being cancelled. -/
def overtaken : List WorldEvent := [.monitorAdd 7 5, .insert 0, .monitorCancel 0, .monitorAdd 7 5, .insert 1, .cancel 0]

/-- The events can happen, and at their end the second monitor is live and not in the table. -/
def LosesMonitor (events : List WorldEvent) : Prop :=
  ∃ (w : World) (entry : Entry),
    events.foldlM (guarded World.step World.allowed) World.new = some w ∧ Run World.step World.allowed World.new w ∧
      w.monitors[1]? = some entry ∧ entry.live = true ∧ w.handleHash entry.methodHandle = none

/-- The end of the dispatch, or of the cancelling, takes the new monitor out of the table. -/
theorem replaced_lost : LosesMonitor replaced ∧ LosesMonitor overtaken := by
  have first : ∃ w, replaced.foldlM (guarded World.step World.allowed) World.new = some w ∧
      ∃ entry, w.monitors[1]? = some entry ∧ entry.live = true ∧ w.handleHash entry.methodHandle = none :=
    ⟨_, rfl, _, rfl, rfl, rfl⟩
  have second : ∃ w, overtaken.foldlM (guarded World.step World.allowed) World.new = some w ∧
      ∃ entry, w.monitors[1]? = some entry ∧ entry.live = true ∧ w.handleHash entry.methodHandle = none :=
    ⟨_, rfl, _, rfl, rfl, rfl⟩
  constructor
  · obtain ⟨w, followed, entry, here, live, lost⟩ := first
    exact ⟨w, entry, followed, Run.of_foldlM _ followed, here, live, lost⟩
  · obtain ⟨w, followed, entry, here, live, lost⟩ := second
    exact ⟨w, entry, followed, Run.of_foldlM _ followed, here, live, lost⟩

end GnomeVfs.MonitorDispatch
