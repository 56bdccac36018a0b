import GnomeVfs.MonitorDispatch

/- As long as no dispatch ends beside its source, the pending timeout is the one source of a monitor. -/
namespace GnomeVfs.MonitorDispatch

open Monitor Transition

section Queue

/-- What is being sent is what the batch has left, and the batch goes through the queue in order. -/
structure Batch (pending : List CallbackData) (left : List Nat) : Prop where
  sorted : left.Pairwise (· < ·)
  inside : ∀ place ∈ left, place < pending.length
  places : ∀ (place : Nat) (data : CallbackData), pending[place]? = some data →
    (data.sendState = .sending ↔ place ∈ left)

variable {pending : List CallbackData} {left : List Nat} {place now : Nat}

theorem Batch.append (batch : Batch pending left) {data : CallbackData} (unsent : data.sendState = .notSent) :
    Batch (pending ++ [data]) left := by
  refine ⟨batch.sorted, ?_, ?_⟩
  · intro place member
    have inside := batch.inside place member
    rw [List.length_append]
    omega
  · intro place other here
    by_cases old : place < pending.length
    · rw [List.getElem?_append_left old] at here
      exact batch.places place other here
    · rw [List.getElem?_append_right (by omega)] at here
      have new : other = data := List.mem_singleton.mp (List.mem_of_getElem? here)
      rw [new, unsent]
      constructor
      · intro never
        cases never
      · intro member
        exact absurd (batch.inside place member) old

theorem Batch.map (batch : Batch pending left) {f : CallbackData → CallbackData}
    (same : ∀ data, (f data).sendState = data.sendState) : Batch (pending.map f) left := by
  refine ⟨batch.sorted, ?_, ?_⟩
  · intro place member
    rw [List.length_map]
    exact batch.inside place member
  · intro place data here
    rw [List.getElem?_map] at here
    obtain ⟨before, there, rfl⟩ := Option.map_eq_some_iff.mp here
    rw [same]
    exact batch.places place before there

theorem batch_nil : Batch pending [] ↔ ∀ data ∈ pending, data.sendState ≠ .sending := by
  constructor
  · intro batch data member sending
    obtain ⟨place, here⟩ := List.getElem?_of_mem member
    cases (batch.places place data here).mp sending
  · intro quiet
    refine ⟨List.Pairwise.nil, ?_, ?_⟩
    · intro place never
      cases never
    · intro place data here
      constructor
      · intro sending
        exact absurd sending (quiet data (List.mem_of_getElem? here))
      · intro never
        cases never

theorem Batch.filter (batch : Batch pending []) (p : CallbackData → Bool) : Batch (pending.filter p) [] := by
  rw [batch_nil] at batch ⊢
  intro data member
  exact batch data (List.mem_filter.mp member).1

theorem mem_dispatched : place ∈ dispatched pending now ↔ ∃ data, pending[place]? = some data ∧ data.due now = true := by
  rw [dispatched, List.mem_filter, List.mem_range]
  constructor
  · rintro ⟨-, due⟩
    cases here : pending[place]? with
    | none =>
      rw [here] at due
      cases due
    | some data =>
      rw [here] at due
      exact ⟨data, rfl, due⟩
  · rintro ⟨data, here, due⟩
    refine ⟨(List.getElem?_eq_some_iff.mp here).1, ?_⟩
    rw [here]
    exact due

theorem Batch.collect (batch : Batch pending []) (now : Nat) :
    Batch (pending.map fun data => if data.due now then { data with sendState := .sending } else data)
      (dispatched pending now) := by
  refine ⟨List.Pairwise.filter _ List.pairwise_lt_range, ?_, ?_⟩
  · intro place member
    obtain ⟨data, here, -⟩ := mem_dispatched.mp member
    rw [List.length_map]
    exact (List.getElem?_eq_some_iff.mp here).1
  · intro place data here
    rw [List.getElem?_map] at here
    obtain ⟨before, there, rfl⟩ := Option.map_eq_some_iff.mp here
    rw [mem_dispatched, there]
    by_cases due : before.due now = true
    · rw [if_pos due]
      exact ⟨fun _ => ⟨before, rfl, due⟩, fun _ => rfl⟩
    · rw [if_neg due]
      constructor
      · intro sending
        exact absurd sending (batch_nil.mp batch before (List.mem_of_getElem? there))
      · rintro ⟨same, found, never⟩
        cases found
        exact absurd never due

theorem Batch.finish (batch : Batch pending (place :: left)) :
    Batch (pending.modify place fun data => { data with sendState := .sent }) left := by
  have sorted := List.pairwise_cons.mp batch.sorted
  refine ⟨sorted.2, ?_, ?_⟩
  · intro other member
    rw [List.length_modify]
    exact batch.inside other (List.mem_cons_of_mem _ member)
  · intro other data here
    by_cases this : other = place
    · rw [this] at here ⊢
      rw [List.getElem?_modify_eq] at here
      obtain ⟨before, -, rfl⟩ := Option.map_eq_some_iff.mp here
      constructor
      · intro never
        cases never
      · intro member
        exact absurd (sorted.1 place member) (Nat.lt_irrefl place)
    · rw [List.getElem?_modify_ne _ _ (Ne.symm this)] at here
      rw [batch.places other data here]
      exact ⟨fun member => (List.mem_cons.mp member).resolve_left this, fun member => List.mem_cons_of_mem _ member⟩

end Queue

section Invariant

def State.left (s : State) : List Nat := s.frames.flatMap (·.left)

def State.waiting (s : State) : List Nat := s.frames.flatMap (·.waiting)

/-- The monitor has not been destroyed, and nothing has gone wrong. -/
structure State.Sound (s : State) : Prop where
  kept : s.destroyed = 0
  calm : s.aborted = false
  untouched : s.dangling = false
  sources : s.sources = if s.handle.pendingTimeout = 0 then [] else [s.handle.pendingTimeout]
  known : s.handle.pendingTimeout ≤ s.lastSource
  single : s.frames.length ≤ 1
  dispatched : ∀ frame ∈ s.frames, frame.source ≤ s.lastSource ∧ s.handle.pendingTimeout ≠ 0
  dispatching : s.handle.inDispatch = true ↔
    ∃ source now left running, Frame.sending source now left running ∈ s.frames
  idle : s.handle.pendingTimeout = 0 → s.handle.minSendAt = 0 ∧ noLiveCallbacks s.handle.pendingCallbacks = true
  batch : Batch s.handle.pendingCallbacks s.left

/-- The monitor has been destroyed once, and nothing is left that could use it. -/
structure State.Gone (s : State) : Prop where
  once : s.destroyed = 1
  cancelled : s.handle.cancelled = true
  frames : s.frames = []
  sources : s.sources = []
  calm : s.aborted = false
  untouched : s.dangling = false

variable {s t : State}

theorem State.Sound.new (clock : Nat) : (State.new clock).Sound := by
  refine ⟨rfl, rfl, rfl, rfl, Nat.le_refl _, Nat.zero_le _, ?_, ?_, fun _ => ⟨rfl, rfl⟩, batch_nil.mpr ?_⟩
  · intro frame never
    cases never
  · constructor
    · intro never
      cases never
    · rintro ⟨source, now, left, running, never⟩
      cases never
  · intro data never
    cases never

theorem State.removeTimeout_eq (s : State) : s.removeTimeout = { s with
    sources := if s.handle.pendingTimeout ≠ 0 then s.sources.filter (· ≠ s.handle.pendingTimeout) else s.sources } := by
  unfold State.removeTimeout State.sourceRemove
  split
  · rfl
  · rfl

theorem removed_timeout {sources : List Nat} {timeout : Nat}
    (same : sources = if timeout = 0 then [] else [timeout]) :
    (if timeout ≠ 0 then sources.filter (· ≠ timeout) else sources) = [] := by
  by_cases none : timeout = 0
  · rw [if_neg (by simpa using none), same, if_pos none]
  · rw [if_pos none, same, if_neg none]
    simp

theorem State.Sound.queue (sound : s.Sound) {pending : List CallbackData} (batch : Batch pending s.left)
    (live : noLiveCallbacks pending = true ∨ s.handle.pendingTimeout ≠ 0) :
    State.Sound { s with handle := { s.handle with pendingCallbacks := pending } } := by
  refine ⟨sound.kept, sound.calm, sound.untouched, sound.sources, sound.known, sound.single, sound.dispatched,
    sound.dispatching, ?_, batch⟩
  intro none
  exact ⟨(sound.idle none).1, live.resolve_right fun some => some none⟩

theorem State.Sound.sendUriChangesNow (sound : s.Sound) (uri : Bytes) (now : Nat) : (s.sendUriChangesNow uri now).Sound := by
  have same : ∀ data : CallbackData,
      (if data.sendState ≠ .sent ∧ data.infoUri = uri then { data with sendAt := now } else data).sendState =
        data.sendState := by
    intro data
    split
    · rfl
    · rfl
  apply sound.queue (sound.batch.map same)
  by_cases none : s.handle.pendingTimeout = 0
  · left
    have quiet := (sound.idle none).2
    rw [noLiveCallbacks, List.all_eq_true] at quiet ⊢
    intro data member
    obtain ⟨before, old, rfl⟩ := List.mem_map.mp member
    rw [same]
    exact quiet before old
  · exact Or.inr none

/-- A timeout is installed in place of the one that is pending. -/
theorem State.Sound.push (sound : s.Sound) {data : CallbackData} {source : Nat} (unsent : data.sendState = .notSent)
    (fresh : s.lastSource < source) : (s.push data source).Sound := by
  unfold State.push
  dsimp only
  split
  · rw [State.installTimeout, State.removeTimeout_eq]
    refine ⟨sound.kept, sound.calm, sound.untouched, ?_, Nat.le_refl _, sound.single, ?_, sound.dispatching, ?_,
      sound.batch.append unsent⟩
    · show (if s.handle.pendingTimeout ≠ 0 then _ else _) ++ [source] = if source = 0 then [] else [source]
      rw [removed_timeout sound.sources, if_neg (by omega)]
      rfl
    · intro frame member
      have known := (sound.dispatched frame member).1
      exact ⟨show frame.source ≤ source by omega, show source ≠ 0 by omega⟩
    · intro none
      exact absurd none (show source ≠ 0 by omega)
  · rename_i later
    apply sound.queue (sound.batch.append unsent)
    right
    intro none
    exact later (Or.inl (sound.idle none).1)

/-- A call is merged with the last queued callback for its URI, or queues one of its own. -/
theorem State.monitorCallback_cases (uri : Bytes) (eventType : EventType) (now source : Nat)
    (live : s.handle.cancelled = false) :
    (∃ place last, lastData s.handle.pendingCallbacks uri = some (place, last) ∧ last.eventType = eventType ∧
      last.sendState ≠ .sent ∧ s.monitorCallback uri eventType now source = s) ∨
    (lastData s.handle.pendingCallbacks uri = none ∧
      s.monitorCallback uri eventType now source = s.push ⟨uri, eventType, .notSent, now⟩ source) ∨
    (s.monitorCallback uri eventType now source =
      (s.sendUriChangesNow uri now).push ⟨uri, eventType, .notSent, now⟩ source) ∨
    ∃ place last sendAt, lastData s.handle.pendingCallbacks uri = some (place, last) ∧ last.sendState = .sent ∧
      s.monitorCallback uri eventType now source = s.push ⟨uri, eventType, .notSent, sendAt⟩ source := by
  unfold State.monitorCallback
  rw [if_neg (by rw [live]; decide)]
  cases found : lastData s.handle.pendingCallbacks uri with
  | none => exact Or.inr (Or.inl ⟨rfl, rfl⟩)
  | some entry =>
    obtain ⟨place, last⟩ := entry
    dsimp only
    by_cases same : last.eventType = eventType
    · rw [if_neg (by simpa using same)]
      by_cases sent : last.sendState = .sent
      · rw [if_pos sent]
        exact Or.inr (Or.inr (Or.inr ⟨place, last, _, rfl, sent, rfl⟩))
      · rw [if_neg sent]
        exact Or.inl ⟨place, last, rfl, same, sent, rfl⟩
    · rw [if_pos same]
      exact Or.inr (Or.inr (Or.inl rfl))

/-- A callback is queued, and nothing else happens but that a timeout may be installed. -/
theorem State.push_frame (s : State) (data : CallbackData) (source : Nat) :
    (s.push data source).handle.pendingCallbacks = s.handle.pendingCallbacks ++ [data] ∧
    (s.push data source).handle.cancelled = s.handle.cancelled ∧ (s.push data source).frames = s.frames ∧
    (s.push data source).started = s.started ∧ (s.push data source).told = s.told := by
  unfold State.push
  dsimp only
  split
  · rw [State.installTimeout, State.removeTimeout_eq]
    exact ⟨rfl, rfl, rfl, rfl, rfl⟩
  · exact ⟨rfl, rfl, rfl, rfl, rfl⟩

/-- Being told of a change neither cancels nor dispatches. -/
theorem State.monitorCallback_frame (uri : Bytes) (eventType : EventType) (now source : Nat)
    (live : s.handle.cancelled = false) :
    (s.monitorCallback uri eventType now source).handle.cancelled = false ∧
    (s.monitorCallback uri eventType now source).frames = s.frames ∧
    (s.monitorCallback uri eventType now source).started = s.started := by
  have pushed : ∀ (s : State) {data : CallbackData}, (s.push data source).handle.cancelled = s.handle.cancelled ∧
      (s.push data source).frames = s.frames ∧ (s.push data source).started = s.started := by
    intro s data
    obtain ⟨-, cancelled, frames, started, -⟩ := s.push_frame data source
    exact ⟨cancelled, frames, started⟩
  rw [← live]
  rcases State.monitorCallback_cases uri eventType now source live with
    ⟨_, _, _, _, _, same⟩ | ⟨_, same⟩ | same | ⟨_, _, _, _, _, same⟩
  · rw [same]
    exact ⟨rfl, rfl, rfl⟩
  · rw [same]
    exact pushed s
  · rw [same]
    exact pushed (s.sendUriChangesNow uri now)
  · rw [same]
    exact pushed s

theorem State.Sound.tell (sound : s.Sound) (now : Nat) (told : List (Bytes × EventType)) :
    State.Sound { s with clock := now, told := told } :=
  ⟨sound.kept, sound.calm, sound.untouched, sound.sources, sound.known, sound.single, sound.dispatched,
    sound.dispatching, sound.idle, sound.batch⟩

theorem State.Sound.monitorCallback (sound : s.Sound) {uri : Bytes} {eventType : EventType} {now source : Nat}
    (fresh : s.lastSource < source) : (s.monitorCallback uri eventType now source).Sound := by
  cases live : s.handle.cancelled with
  | true =>
    unfold State.monitorCallback
    rw [if_pos live]
    exact sound
  | false =>
    rcases State.monitorCallback_cases uri eventType now source live with
      ⟨_, _, _, _, _, same⟩ | ⟨_, same⟩ | same | ⟨_, _, _, _, _, same⟩
    · rw [same]
      exact sound
    · rw [same]
      exact sound.push rfl fresh
    · rw [same]
      exact (sound.sendUriChangesNow uri now).push rfl fresh
    · rw [same]
      exact sound.push rfl fresh

end Invariant

section Steps

variable {s t : State} {source now next place : Nat} {left : List Nat} {frames : List Frame} {running : Bool}

theorem State.Sound.outer (sound : s.Sound) {frame : Frame} (here : s.frames = frame :: frames) : frames = [] := by
  have single := sound.single
  rw [here, List.length_cons] at single
  exact List.eq_nil_of_length_eq_zero (by omega)

theorem State.Sound.sendingAny (sound : s.Sound) (none : s.left = []) : s.sendingAny = false := by
  have batch := sound.batch
  rw [none, batch_nil] at batch
  rw [State.sendingAny, List.any_eq_false]
  intro data member
  simpa using batch data member

theorem State.Sound.wake (sound : s.Sound) (quiet : s.frames = []) (installed : source ∈ s.sources) :
    State.Sound { s with frames := .timed source now :: s.frames, clock := now } := by
  have timeout : s.handle.pendingTimeout ≠ 0 ∧ source = s.handle.pendingTimeout := by
    rw [sound.sources] at installed
    split at installed
    · cases installed
    · rename_i some
      exact ⟨some, List.mem_singleton.mp installed⟩
  have resting : s.handle.inDispatch = true ↔ False := by
    rw [sound.dispatching, quiet]
    simp
  refine ⟨sound.kept, sound.calm, sound.untouched, sound.sources, sound.known, ?_, ?_, ?_, ?_, ?_⟩
  · rw [quiet]
    exact Nat.le_refl _
  · intro frame member
    rw [quiet] at member
    rw [List.mem_singleton.mp member]
    exact ⟨by rw [timeout.2]; exact sound.known, timeout.1⟩
  · rw [quiet]
    show s.handle.inDispatch = true ↔ _
    rw [resting]
    simp
  · intro none
    exact absurd none timeout.1
  · have batch := sound.batch
    rw [State.left, quiet] at batch
    rw [quiet]
    exact batch

theorem State.Sound.collect (sound : s.Sound) (here : s.frames = .timed source now :: frames)
    (live : s.handle.cancelled = false) : (s.collect source now frames).Sound := by
  have none := sound.outer here
  have empty : s.left = [] := by
    rw [State.left, here, none]
    rfl
  have known := sound.dispatched _ (by rw [here]; exact List.mem_cons_self)
  have batch := sound.batch
  rw [empty] at batch
  unfold State.collect
  rw [if_neg (by rw [live]; decide), none]
  refine ⟨sound.kept, sound.sendingAny empty, sound.untouched, sound.sources, sound.known, Nat.le_refl _, ?_, ?_, ?_, ?_⟩
  · intro frame member
    rw [List.mem_singleton.mp member]
    exact known
  · exact ⟨fun _ => ⟨_, _, _, _, List.mem_cons_self⟩, fun _ => rfl⟩
  · intro never
    exact absurd never known.2
  · rw [State.left]
    simpa [Frame.left, Handle.collect] using batch.collect now

theorem State.Sound.start (sound : s.Sound) {log : List (Bytes × EventType)}
    (here : s.frames = .sending source now left false :: frames) :
    State.Sound { s with frames := .sending source now left true :: frames, started := log } := by
  have none := sound.outer here
  have known := sound.dispatched _ (by rw [here]; exact List.mem_cons_self)
  have batch := sound.batch
  rw [State.left, here, none] at batch
  rw [none]
  refine ⟨sound.kept, sound.calm, sound.untouched, sound.sources, sound.known, Nat.le_refl _, ?_, ?_, sound.idle, batch⟩
  · intro frame member
    rw [List.mem_singleton.mp member]
    exact known
  · have dispatching : s.handle.inDispatch = true :=
      sound.dispatching.mpr ⟨_, _, _, _, by rw [here]; exact List.mem_cons_self⟩
    exact ⟨fun _ => ⟨_, _, _, _, List.mem_cons_self⟩, fun _ => dispatching⟩

theorem State.Sound.finish (sound : s.Sound) (here : s.frames = .sending source now (place :: left) true :: frames) :
    State.Sound { s with handle := s.handle.markSent place, frames := .sending source now left false :: frames } := by
  have none := sound.outer here
  have known := sound.dispatched _ (by rw [here]; exact List.mem_cons_self)
  have batch := sound.batch
  rw [State.left, here, none] at batch
  have batch : Batch s.handle.pendingCallbacks (place :: left) := by simpa [Frame.left] using batch
  rw [none]
  refine ⟨sound.kept, sound.calm, sound.untouched, sound.sources, sound.known, Nat.le_refl _, ?_, ?_, ?_, ?_⟩
  · intro frame member
    rw [List.mem_singleton.mp member]
    exact known
  · have dispatching : s.handle.inDispatch = true :=
      sound.dispatching.mpr ⟨_, _, _, _, by rw [here]; exact List.mem_cons_self⟩
    exact ⟨fun _ => ⟨_, _, _, _, List.mem_cons_self⟩, fun _ => dispatching⟩
  · intro never
    exact absurd never known.2
  · rw [State.left]
    simpa [Frame.left, Handle.markSent] using batch.finish

theorem State.Sound.settle (sound : s.Sound) (here : s.frames = .sending source now [] running :: frames)
    (live : s.handle.cancelled = false) (fresh : s.lastSource < next)
    (tidy : noLiveCallbacks (s.handle.remaining now) = true → s.handle.pendingTimeout = source) :
    State.Sound (State.sourceRemove (State.settle { s with frames := frames, aborted := s.sendingAny } now next) source) := by
  have none := sound.outer here
  have empty : s.left = [] := by
    rw [State.left, here, none]
    rfl
  have known := sound.dispatched _ (by rw [here]; exact List.mem_cons_self)
  have batch := sound.batch
  rw [empty] at batch
  have resting : ∀ {t : State}, t.handle.inDispatch = false → t.frames = [] →
      (t.handle.inDispatch = true ↔ ∃ source now left running, Frame.sending source now left running ∈ t.frames) := by
    intro t still quiet
    rw [still, quiet]
    simp
  unfold State.settle
  dsimp only
  rw [if_neg (by rw [live]; decide), none]
  split
  · rename_i quiet
    have same : s.handle.pendingTimeout = source := tidy quiet
    refine ⟨sound.kept, sound.sendingAny empty, sound.untouched, ?_, Nat.zero_le _, Nat.zero_le _, ?_, resting rfl rfl,
      fun _ => ⟨rfl, quiet⟩, batch.filter _⟩
    · show s.sources.filter (· ≠ source) = []
      rw [sound.sources, if_neg known.2, same]
      simp
    · intro frame never
      cases never
  · rw [State.installTimeout, State.removeTimeout_eq]
    have apart : next ≠ source := by
      have inside : source ≤ s.lastSource := known.1
      omega
    refine ⟨sound.kept, sound.sendingAny empty, sound.untouched, ?_, Nat.le_refl _, Nat.zero_le _, ?_, resting rfl rfl,
      ?_, batch.filter _⟩
    · show ((if s.handle.pendingTimeout ≠ 0 then _ else _) ++ [next]).filter (· ≠ source) = if next = 0 then [] else [next]
      rw [removed_timeout sound.sources, if_neg (by omega)]
      simpa using apart
    · intro frame never
      cases never
    · intro never
      exact absurd never (show next ≠ 0 by omega)

end Steps

end GnomeVfs.MonitorDispatch
