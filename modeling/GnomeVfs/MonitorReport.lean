import GnomeVfs.Monitor

/- Every change that a method has told of is reported to the application, has been reported since, or
is still to be reported. -/
namespace GnomeVfs.Monitor

open Transition

variable {place : Nat}

section Labels

/-- What a queued callback is about, and how far it has got. -/
def CallbackData.label (data : CallbackData) : Bytes × EventType × CallbackState :=
  (data.infoUri, data.eventType, data.sendState)

def Handle.labels (h : Handle) : List (Bytes × EventType × CallbackState) := h.pendingCallbacks.map (·.label)

/-- The callbacks that are being dispatched and have not returned. -/
def Loop.left : Loop → List Nat
  | .sending _ left _ => left
  | _ => []

/-- The callbacks that are being dispatched and have not been started. -/
def Loop.waiting : Loop → List Nat
  | .sending _ left false => left
  | .sending _ (_ :: left) true => left
  | _ => []

variable {h : Handle} {uri : Bytes} {eventType : EventType} {now : Nat}

theorem lastData_label {last : CallbackData} (found : lastData h.pendingCallbacks uri = some (place, last)) :
    h.labels[place]? = some last.label ∧ last.infoUri = uri := by
  obtain ⟨⟨data, i⟩, here, same⟩ := Option.map_eq_some_iff.mp found
  cases same
  have named := List.find?_some here
  have member := List.mem_reverse.mp (List.mem_of_find?_eq_some here)
  have position : h.pendingCallbacks[i]? = some data := List.mem_zipIdx_iff_getElem?.mp member
  refine ⟨?_, by simpa using named⟩
  rw [Handle.labels, List.getElem?_map, position]
  rfl

theorem sendUriChangesNow_labels (pending : List CallbackData) :
    (sendUriChangesNow pending uri now).map (·.label) = pending.map (·.label) := by
  rw [sendUriChangesNow, List.map_map]
  apply List.map_congr_left
  intro data _
  show CallbackData.label (if _ then _ else _) = _
  split
  · rfl
  · rfl

theorem Handle.push_labels (data : CallbackData) : (h.push data now).labels = h.labels ++ [data.label] := by
  rw [Handle.push]
  dsimp only
  split
  · show (h.pendingCallbacks ++ [data]).map (·.label) = _
    rw [List.map_append]
    rfl
  · show (h.pendingCallbacks ++ [data]).map (·.label) = _
    rw [List.map_append]
    rfl

theorem Handle.push_flags (data : CallbackData) : (h.push data now).cancelled = h.cancelled ∧
    (h.push data now).inDispatch = h.inDispatch := by
  rw [Handle.push]
  dsimp only
  split
  · exact ⟨rfl, rfl⟩
  · exact ⟨rfl, rfl⟩

theorem monitorCallback_cases (uri : Bytes) (eventType : EventType) (now : Nat) (live : h.cancelled = false) :
    ((monitorCallback h uri eventType now).cancelled = false ∧
      (monitorCallback h uri eventType now).inDispatch = h.inDispatch) ∧
    ((monitorCallback h uri eventType now).labels = h.labels ++ [(uri, eventType, .notSent)] ∨
      ∃ place last, lastData h.pendingCallbacks uri = some (place, last) ∧ last.eventType = eventType ∧
        last.sendState ≠ .sent ∧ (monitorCallback h uri eventType now).labels = h.labels) := by
  rw [monitorCallback, if_neg (by rw [live]; decide)]
  split
  · refine ⟨?_, Or.inl (Handle.push_labels _)⟩
    rw [← live]
    exact Handle.push_flags _
  · rename_i place last found
    split
    · refine ⟨?_, Or.inl ?_⟩
      · rw [← live]
        exact Handle.push_flags _
      · rw [Handle.push_labels]
        exact congrArg (· ++ _) (sendUriChangesNow_labels _)
    · rename_i same
      split
      · refine ⟨?_, Or.inl (Handle.push_labels _)⟩
        rw [← live]
        exact Handle.push_flags _
      · rename_i unsent
        exact ⟨⟨live, rfl⟩, Or.inr ⟨place, last, found, by simpa using same, unsent, rfl⟩⟩

end Labels

variable {loop : Loop} {call : Call}

section Invariant

/-- A change has been reported since the call began, or it is queued, or its callback is being
dispatched and has not been started. -/
def State.Reports (s : State) (call : Call) : Prop :=
  (call.uri, call.eventType) ∈ s.started.drop call.begun ∨ (call.uri, call.eventType, .notSent) ∈ s.handle.labels ∨
    ∃ place ∈ s.loop.waiting, s.handle.labels[place]? = some (call.uri, call.eventType, .sending)

/-- While the first of the callbacks left is running, it is the last that has been started. -/
def State.Running (s : State) : Prop :=
  ∀ now place left, s.loop = .sending now (place :: left) true →
    ∃ uri eventType, s.handle.labels[place]? = some (uri, eventType, .sending) ∧
      s.started.getLast? = some (uri, eventType)

structure State.Sound (s : State) : Prop where
  calm : s.aborted = false
  dispatching : s.handle.inDispatch = true ↔ ∃ now left running, s.loop = .sending now left running
  distinct : s.loop.left.Nodup
  inside : ∀ place ∈ s.loop.left, place < s.handle.labels.length
  places : ∀ (place : Nat) (uri : Bytes) (eventType : EventType) (state : CallbackState),
    s.handle.labels[place]? = some (uri, eventType, state) → (state = .sending ↔ place ∈ s.loop.left)
  running : s.Running
  begun : ∀ call ∈ s.calls, call.begun ≤ s.started.length
  reported : s.handle.cancelled = false → ∀ call ∈ s.calls, call.returned = true → call.late = false → s.Reports call

variable {s t : State}

theorem State.Sound.new (clock : Nat) : (State.new clock).Sound := by
  refine ⟨rfl, ?_, List.nodup_nil, ?_, ?_, ?_, ?_, ?_⟩
  · constructor
    · intro never
      cases never
    · rintro ⟨now, left, running, never⟩
      cases never
  · intro place never
    cases never
  · intro place uri eventType state never
    cases never
  · intro now place left never
    cases never
  · intro call member
    cases member
  · intro _ call member
    cases member

theorem Loop.left_of_waiting (member : place ∈ loop.waiting) : place ∈ loop.left := by
  cases loop with
  | idle => cases member
  | timed now => cases member
  | sending now left running =>
    cases running with
    | false => exact member
    | true =>
      cases left with
      | nil => cases member
      | cons first left => exact List.mem_cons_of_mem _ member

theorem Loop.waiting_or_running (member : place ∈ loop.left) :
    place ∈ loop.waiting ∨ ∃ now left, loop = .sending now (place :: left) true := by
  cases loop with
  | idle => cases member
  | timed now => cases member
  | sending now left running =>
    cases running with
    | false => exact Or.inl member
    | true =>
      cases left with
      | nil => cases member
      | cons first left =>
        rcases List.mem_cons.mp member with here | there
        · exact Or.inr ⟨now, left, by rw [here]⟩
        · exact Or.inl there

theorem State.Reports.queue (reports : s.Reports call) {added : List (Bytes × EventType × CallbackState)}
    (started : t.started = s.started) (loop : t.loop = s.loop)
    (labels : t.handle.labels = s.handle.labels ++ added) :
    t.Reports call := by
  rcases reports with done | queued | ⟨place, waiting, here⟩
  · left
    rw [started]
    exact done
  · right
    left
    rw [labels]
    exact List.mem_append_left _ queued
  · right
    right
    refine ⟨place, by rw [loop]; exact waiting, ?_⟩
    rw [labels, List.getElem?_append_left (List.getElem?_eq_some_iff.mp here).1]
    exact here

/-- More callbacks may be queued at any time; those that are being dispatched stay where they are. -/
theorem State.Sound.queue (sound : s.Sound) (added : List (Bytes × EventType × CallbackState))
    (unsent : ∀ label ∈ added, label.2.2 = .notSent) (loop : t.loop = s.loop)
    (started : t.started = s.started) (labels : t.handle.labels = s.handle.labels ++ added)
    (dispatch : t.handle.inDispatch = s.handle.inDispatch) (calm : t.aborted = s.aborted)
    (begun : ∀ call ∈ t.calls, call.begun ≤ s.started.length)
    (reported : t.handle.cancelled = false →
      ∀ call ∈ t.calls, call.returned = true → call.late = false → t.Reports call): t.Sound := by
  refine ⟨calm.trans sound.calm, ?_, ?_, ?_, ?_, ?_, ?_, reported⟩
  · rw [dispatch, loop]
    exact sound.dispatching
  · rw [loop]
    exact sound.distinct
  · intro place member
    rw [loop] at member
    have inside := sound.inside place member
    rw [labels, List.length_append]
    omega
  · intro place uri eventType state here
    rw [labels] at here
    rw [loop]
    by_cases old : place < s.handle.labels.length
    · rw [List.getElem?_append_left old] at here
      exact sound.places place uri eventType state here
    · rw [List.getElem?_append_right (by omega)] at here
      have new : state = .notSent := unsent _ (List.mem_of_getElem? here)
      constructor
      · intro never
        rw [new] at never
        cases never
      · intro member
        exact absurd (sound.inside place member) old
  · intro now place left running
    rw [loop] at running
    obtain ⟨uri, eventType, here, last⟩ := sound.running now place left running
    refine ⟨uri, eventType, ?_, by rw [started]; exact last⟩
    rw [labels, List.getElem?_append_left (List.getElem?_eq_some_iff.mp here).1]
    exact here
  · intro call member
    rw [started]
    exact begun call member

theorem State.Sound.begin (sound : s.Sound) (uri : Bytes) (eventType : EventType) :
    State.Sound { s with calls := s.calls ++ [⟨uri, eventType, s.started.length, false, false⟩] } := by
  refine sound.queue [] (by simp) rfl rfl (List.append_nil _).symm rfl rfl ?_ ?_
  · intro call member
    rcases List.mem_append.mp member with old | new
    · exact sound.begun call old
    · cases List.mem_singleton.mp new
      exact Nat.le_refl _
  · intro live call member returned fine
    rcases List.mem_append.mp member with old | new
    · exact (sound.reported live call old returned fine).queue rfl rfl (List.append_nil _).symm
    · rw [List.mem_singleton.mp new] at returned
      cases returned

/-- A call that is not late is reported by the callback it is merged with. -/
theorem State.Sound.merged (sound : s.Sound) {last : CallbackData} (begun : call.begun ≤ s.started.length)
    (found : lastData s.handle.pendingCallbacks call.uri = some (place, last))
    (same : last.eventType = call.eventType) (unsent : last.sendState ≠ .sent) (early : s.late call = false) :
    s.Reports call := by
  obtain ⟨here, named⟩ := lastData_label found
  rw [CallbackData.label, named, same] at here
  cases state : last.sendState with
  | sent => exact absurd state unsent
  | notSent =>
    rw [state] at here
    exact Or.inr (Or.inl (List.mem_of_getElem? here))
  | sending =>
    rw [state] at here
    rcases Loop.waiting_or_running ((sound.places place _ _ _ here).mp rfl) with waiting | ⟨now, left, running⟩
    · exact Or.inr (Or.inr ⟨place, waiting, here⟩)
    · -- its callback is running, so it was started after the call began
      obtain ⟨uri, eventType, again, newest⟩ := sound.running now place left running
      rw [here] at again
      cases again
      have later : call.begun ≠ s.started.length := by
        intro equal
        rw [State.late, running, found] at early
        simp [same, equal] at early
      obtain ⟨front, split⟩ := List.getLast?_eq_some_iff.mp newest
      left
      rw [split, List.length_append, List.length_singleton] at begun later
      rw [split, List.drop_append_of_le_length (by omega)]
      exact List.mem_append_right _ (List.mem_singleton.mpr rfl)

theorem State.Sound.enter (sound : s.Sound) {i now : Nat} (called : s.calls[i]? = some call) :
    State.Sound { s with
      handle := monitorCallback s.handle call.uri call.eventType now
      clock := now
      calls := s.calls.set i { call with returned := true, late := s.late call } } := by
  have begun := sound.begun call (List.mem_of_getElem? called)
  have counts : ∀ other ∈ s.calls.set i { call with returned := true, late := s.late call },
      other.begun ≤ s.started.length := by
    intro other member
    rcases List.mem_or_eq_of_mem_set member with old | new
    · exact sound.begun other old
    · rw [new]
      exact begun
  cases live : s.handle.cancelled with
  | true =>
    have same : monitorCallback s.handle call.uri call.eventType now = s.handle := if_pos live
    rw [same]
    refine sound.queue [] (by simp) rfl rfl (List.append_nil _).symm rfl rfl counts ?_
    intro never
    rw [live] at never
    cases never
  | false =>
    obtain ⟨⟨-, dispatch⟩, queued⟩ := monitorCallback_cases call.uri call.eventType now live
    rcases queued with own | ⟨place, last, found, same, unsent, labels⟩
    · refine sound.queue [(call.uri, call.eventType, .notSent)] (by simp) rfl rfl own dispatch rfl counts ?_
      intro _ other member returned fine
      rcases List.mem_or_eq_of_mem_set member with old | new
      · exact (sound.reported live other old returned fine).queue rfl rfl own
      · right
        left
        rw [new, own]
        exact List.mem_append_right _ (List.mem_singleton.mpr rfl)
    · have labels : (monitorCallback s.handle call.uri call.eventType now).labels = s.handle.labels ++ [] := by
        rw [labels, List.append_nil]
      refine sound.queue [] (by simp) rfl rfl labels dispatch rfl counts ?_
      intro _ other member returned fine
      rcases List.mem_or_eq_of_mem_set member with old | new
      · exact (sound.reported live other old returned fine).queue rfl rfl labels
      · rw [new] at fine ⊢
        exact (sound.merged begun found same unsent fine).queue rfl rfl labels

end Invariant

section Dispatch

variable {s : State} {now : Nat}

/-- Nothing is being dispatched, so nothing is in the state of being sent. -/
theorem State.Sound.quiet (sound : s.Sound) (none : s.loop.left = []) :
    ∀ data ∈ s.handle.pendingCallbacks, data.sendState ≠ .sending := by
  intro data member sending
  obtain ⟨place, here⟩ := List.getElem?_of_mem member
  have label : s.handle.labels[place]? = some (data.infoUri, data.eventType, .sending) := by
    rw [Handle.labels, List.getElem?_map, here, ← sending]
    rfl
  have never := (sound.places place _ _ _ label).mp rfl
  rw [none] at never
  cases never

theorem State.Sound.assertion (sound : s.Sound) (none : s.loop.left = []) :
    (s.aborted || s.handle.pendingCallbacks.any fun data => data.sendState = .sending) = false := by
  rw [sound.calm, Bool.false_or, List.any_eq_false]
  intro data member
  simpa using sound.quiet none data member

theorem Loop.waiting_nil (none : loop.left = []) : loop.waiting = [] := by
  cases here : loop.waiting with
  | nil => rfl
  | cons place rest =>
    have member : place ∈ loop.left := Loop.left_of_waiting (by rw [here]; exact List.mem_cons_self)
    rw [none] at member
    cases member

theorem State.Sound.destroy (sound : s.Sound) {t : State} (calls : t.calls = s.calls)
    (started : t.started = s.started) (aborted : t.aborted = s.aborted) (empty : t.handle.pendingCallbacks = [])
    (cancelled : t.handle.cancelled = true) (outside : t.handle.inDispatch = false)
    (loop : ∀ now left running, t.loop ≠ .sending now left running) :
    t.Sound := by
  have labels : t.handle.labels = [] := by
    rw [Handle.labels, empty]
    rfl
  have none : t.loop.left = [] := by
    cases here : t.loop with
    | idle => rfl
    | timed now => rfl
    | sending now left running => exact absurd here (loop now left running)
  refine ⟨aborted.trans sound.calm, ?_, ?_, ?_, ?_, ?_, ?_, ?_⟩
  · constructor
    · intro inside
      rw [outside] at inside
      cases inside
    · rintro ⟨now, left, running, here⟩
      exact absurd here (loop now left running)
  · rw [none]
    exact List.nodup_nil
  · intro place member
    rw [none] at member
    cases member
  · intro place uri eventType state never
    rw [labels] at never
    cases never
  · intro now place left running
    exact absurd running (loop now (place :: left) true)
  · rw [calls, started]
    exact sound.begun
  · intro live
    rw [cancelled] at live
    cases live

theorem State.Sound.cancel (sound : s.Sound) : State.Sound { s with handle := monitorDoCancel s.handle } := by
  cases inside : s.handle.inDispatch with
  | true =>
    have same : monitorDoCancel s.handle = { s.handle with cancelled := true } := if_pos inside
    rw [same]
    refine sound.queue [] (by simp) rfl rfl (List.append_nil _).symm rfl rfl sound.begun ?_
    intro never
    cases never
  | false =>
    have same : monitorDoCancel s.handle = destroyMonitorHandle { s.handle with cancelled := true } :=
      if_neg (by rw [inside]; decide)
    rw [same]
    refine sound.destroy rfl rfl rfl rfl rfl inside ?_
    intro now left running here
    have never := sound.dispatching.mpr ⟨now, left, running, here⟩
    rw [inside] at never
    cases never

theorem State.Sound.wake (sound : s.Sound) (idle : s.loop = .idle) :
    State.Sound { s with loop := .timed now, clock := now } := by
  have none : s.loop.left = [] := by rw [idle]; rfl
  have outside : ¬ s.handle.inDispatch = true := by
    intro inside
    obtain ⟨now, left, running, never⟩ := sound.dispatching.mp inside
    rw [idle] at never
    cases never
  refine ⟨sound.calm, ?_, List.nodup_nil, ?_, ?_, ?_, sound.begun, ?_⟩
  · refine ⟨fun inside => absurd inside outside, ?_⟩
    rintro ⟨now, left, running, never⟩
    cases never
  · intro place never
    cases never
  · intro place uri eventType state here
    have before := sound.places place uri eventType state here
    rw [none] at before
    exact before
  · intro now place left never
    cases never
  · intro live call member returned fine
    rcases sound.reported live call member returned fine with done | queued | ⟨place, waiting, -⟩
    · exact Or.inl done
    · exact Or.inr (Or.inl queued)
    · rw [Loop.waiting_nil none] at waiting
      cases waiting

theorem mem_dispatched {pending : List CallbackData} :
    place ∈ dispatched pending now ↔ ∃ data, pending[place]? = some data ∧ data.due now = true := by
  rw [dispatched, List.mem_filter, List.mem_range, Option.any_eq_true]
  constructor
  · exact fun both => both.2
  · rintro ⟨data, here, due⟩
    exact ⟨(List.getElem?_eq_some_iff.mp here).1, data, here, due⟩

/-- Where a callback stands after the first pass over the queue. -/
theorem collect_label {h : Handle} {data : CallbackData} (now : Nat)
    (here : h.pendingCallbacks[place]? = some data) :
    (Monitor.collect h now).labels[place]? =
      some (data.infoUri, data.eventType, if data.due now then .sending else data.sendState) := by
  show ((h.pendingCallbacks.map _).map _)[place]? = _
  rw [List.getElem?_map, List.getElem?_map, here]
  show some (CallbackData.label (if data.due now then _ else _)) = _
  split
  · rfl
  · rfl

theorem State.Sound.collect (sound : s.Sound) (timed : s.loop = .timed now) :
    State.Sound { s with
      handle := Monitor.collect s.handle now
      loop := .sending now (dispatched s.handle.pendingCallbacks now) false
      aborted := s.aborted || s.handle.pendingCallbacks.any fun data => data.sendState = .sending } := by
  have none : s.loop.left = [] := by rw [timed]; rfl
  refine ⟨sound.assertion none, ?_, ?_, ?_, ?_, ?_, sound.begun, ?_⟩
  · exact ⟨fun _ => ⟨_, _, _, rfl⟩, fun _ => rfl⟩
  · exact List.nodup_range.sublist List.filter_sublist
  · intro place member
    obtain ⟨data, here, -⟩ := mem_dispatched.mp member
    exact (List.getElem?_eq_some_iff.mp (collect_label now here)).1
  · intro place uri eventType state here
    have inside : place < s.handle.pendingCallbacks.length := by
      have bound := (List.getElem?_eq_some_iff.mp here).1
      simpa [Handle.labels, Monitor.collect] using bound
    obtain ⟨data, found⟩ : ∃ data, s.handle.pendingCallbacks[place]? = some data := ⟨_, List.getElem?_eq_getElem inside⟩
    have label := here.symm.trans (collect_label now found)
    cases label
    constructor
    · intro sending
      by_cases due : data.due now = true
      · exact mem_dispatched.mpr ⟨data, found, due⟩
      · rw [if_neg due] at sending
        exact absurd sending (sound.quiet none data (List.mem_of_getElem? found))
    · intro member
      obtain ⟨other, again, due⟩ := mem_dispatched.mp member
      rw [found] at again
      cases again
      rw [if_pos due]
  · intro now place left never
    cases (Loop.sending.inj never).2.2
  · intro live call member returned fine
    rcases sound.reported live call member returned fine with done | queued | ⟨place, waiting, -⟩
    · exact Or.inl done
    · obtain ⟨data, inside, label⟩ := List.mem_map.mp queued
      obtain ⟨place, here⟩ := List.getElem?_of_mem inside
      have after := collect_label now here
      rw [CallbackData.label, Prod.mk.injEq, Prod.mk.injEq] at label
      rw [label.1, label.2.1, label.2.2] at after
      by_cases due : data.due now = true
      · rw [if_pos due] at after
        exact Or.inr (Or.inr ⟨place, mem_dispatched.mpr ⟨data, here, due⟩, after⟩)
      · rw [if_neg due] at after
        exact Or.inr (Or.inl (List.mem_of_getElem? after))
    · rw [Loop.waiting_nil none] at waiting
      cases waiting

theorem State.Sound.start (sound : s.Sound) {left : List Nat} {data : CallbackData}
    (loop : s.loop = .sending now (place :: left) false) (here : s.handle.pendingCallbacks[place]? = some data) :
    State.Sound { s with
      loop := .sending now (place :: left) true
      started := s.started ++ [(data.infoUri, data.eventType)] } := by
  have label : s.handle.labels[place]? = some (data.infoUri, data.eventType, data.sendState) := by
    rw [Handle.labels, List.getElem?_map, here]
    rfl
  have same : s.loop.left = place :: left := by rw [loop]; rfl
  have sending : data.sendState = .sending :=
    (sound.places place _ _ _ label).mpr (by rw [same]; exact List.mem_cons_self)
  rw [sending] at label
  refine ⟨sound.calm, ?_, ?_, ?_, ?_, ?_, ?_, ?_⟩
  · exact ⟨fun _ => ⟨_, _, _, rfl⟩, fun _ => sound.dispatching.mpr ⟨_, _, _, loop⟩⟩
  · have distinct := sound.distinct
    rw [same] at distinct
    exact distinct
  · have inside := sound.inside
    rw [same] at inside
    exact inside
  · have places := sound.places
    rw [same] at places
    exact places
  · intro _ _ _ running
    cases running
    exact ⟨data.infoUri, data.eventType, label, List.getLast?_concat⟩
  · intro call member
    have begun := sound.begun call member
    rw [List.length_append]
    omega
  · intro live call member returned fine
    have begun := sound.begun call member
    rcases sound.reported live call member returned fine with done | queued | ⟨other, waiting, there⟩
    · left
      rw [List.drop_append_of_le_length begun]
      exact List.mem_append_left _ done
    · exact Or.inr (Or.inl queued)
    · rw [loop] at waiting
      rcases List.mem_cons.mp waiting with this | later
      · -- the callback that reports the call is the one that is started
        rw [this, label] at there
        have reported := Option.some.inj there
        rw [Prod.mk.injEq, Prod.mk.injEq] at reported
        left
        rw [List.drop_append_of_le_length begun, ← reported.1, ← reported.2.1]
        exact List.mem_append_right _ (List.mem_singleton.mpr rfl)
      · exact Or.inr (Or.inr ⟨other, later, there⟩)

theorem markSent_label {h : Handle} {place other : Nat} (apart : other ≠ place) :
    (markSent h place).labels[other]? = h.labels[other]? := by
  show ((h.pendingCallbacks.modify place _).map _)[other]? = (h.pendingCallbacks.map _)[other]?
  rw [List.getElem?_map, List.getElem?_map, List.getElem?_modify_ne _ _ (Ne.symm apart)]

theorem markSent_label_self {h : Handle} {uri : Bytes} {eventType : EventType} {state : CallbackState}
    (here : (markSent h place).labels[place]? = some (uri, eventType, state)) : state = .sent := by
  have changed : ((h.pendingCallbacks.modify place fun data => { data with sendState := .sent }).map
    (·.label))[place]? = some (uri, eventType, state) := here
  rw [List.getElem?_map, List.getElem?_modify_eq] at changed
  cases found : h.pendingCallbacks[place]? with
  | none =>
    rw [found] at changed
    cases changed
  | some data =>
    rw [found] at changed
    cases changed
    rfl

theorem State.Sound.finish (sound : s.Sound) {place : Nat} {left : List Nat}
    (loop : s.loop = .sending now (place :: left) true) :
    State.Sound { s with handle := markSent s.handle place, loop := .sending now left false } := by
  have same : s.loop.left = place :: left := by rw [loop]; rfl
  have distinct := sound.distinct
  rw [same, List.nodup_cons] at distinct
  obtain ⟨uri, eventType, running, -⟩ := sound.running now place left loop
  refine ⟨sound.calm, ?_, distinct.2, ?_, ?_, ?_, sound.begun, ?_⟩
  · exact ⟨fun _ => ⟨_, _, _, rfl⟩, fun _ => sound.dispatching.mpr ⟨_, _, _, loop⟩⟩
  · intro other member
    have inside := sound.inside other (by rw [same]; exact List.mem_cons_of_mem _ member)
    simpa [Handle.labels, markSent] using inside
  · intro other uri eventType state here
    by_cases this : other = place
    · rw [this] at here ⊢
      rw [markSent_label_self here]
      constructor
      · intro never
        cases never
      · intro member
        exact absurd member distinct.1
    · rw [markSent_label this] at here
      rw [sound.places other uri eventType state here, same]
      exact ⟨fun member => (List.mem_cons.mp member).resolve_left this, fun member => List.mem_cons_of_mem _ member⟩
  · intro now place left never
    cases (Loop.sending.inj never).2.2
  · intro live call member returned fine
    rcases sound.reported live call member returned fine with done | queued | ⟨other, waiting, there⟩
    · exact Or.inl done
    · right
      left
      obtain ⟨other, there⟩ := List.getElem?_of_mem queued
      have apart : other ≠ place := by
        intro this
        rw [this, running] at there
        cases there
      rw [← markSent_label apart] at there
      exact List.mem_of_getElem? there
    · rw [loop] at waiting
      have apart : other ≠ place := fun this => distinct.1 (this ▸ waiting)
      exact Or.inr (Or.inr ⟨other, waiting, (markSent_label apart).trans there⟩)

/-- What is not over stays in the queue, unless the handle is destroyed. -/
theorem settle_cases (h : Handle) (now : Nat) : (Monitor.settle h now).cancelled = h.cancelled ∧
    (Monitor.settle h now).inDispatch = false ∧
    (Monitor.settle h now).pendingCallbacks =
      if h.cancelled then [] else h.pendingCallbacks.filter fun data => ¬ data.atEnd now := by
  rw [Monitor.settle]
  dsimp only
  split
  · exact ⟨rfl, rfl, rfl⟩
  · split
    · exact ⟨rfl, rfl, rfl⟩
    · exact ⟨rfl, rfl, rfl⟩

theorem State.Sound.settle (sound : s.Sound) {running : Bool} (loop : s.loop = .sending now [] running) :
    State.Sound { s with
      handle := Monitor.settle s.handle now
      loop := .idle
      aborted := s.aborted || s.handle.pendingCallbacks.any fun data => data.sendState = .sending } := by
  have none : s.loop.left = [] := by rw [loop]; rfl
  obtain ⟨cancelled, outside, pending⟩ := settle_cases s.handle now
  refine ⟨sound.assertion none, ?_, List.nodup_nil, ?_, ?_, ?_, sound.begun, ?_⟩
  · constructor
    · intro inside
      rw [show (Monitor.settle s.handle now).inDispatch = false from outside] at inside
      cases inside
    · rintro ⟨now, left, running, never⟩
      cases never
  · intro place never
    cases never
  · intro place uri eventType state here
    constructor
    · intro sending
      obtain ⟨data, member, label⟩ := List.mem_map.mp (List.mem_of_getElem? here)
      have kept : data ∈ s.handle.pendingCallbacks := by
        rw [pending] at member
        split at member
        · cases member
        · exact (List.mem_filter.mp member).1
      rw [CallbackData.label, Prod.mk.injEq, Prod.mk.injEq] at label
      exact absurd (label.2.2.trans sending) (sound.quiet none data kept)
    · intro never
      cases never
  · intro now place left never
    cases never
  · intro live call member returned fine
    have before : s.handle.cancelled = false := cancelled.symm.trans live
    rcases sound.reported before call member returned fine with done | queued | ⟨place, waiting, -⟩
    · exact Or.inl done
    · right
      left
      obtain ⟨data, inside, label⟩ := List.mem_map.mp queued
      have unsent := label
      rw [CallbackData.label, Prod.mk.injEq, Prod.mk.injEq] at unsent
      show _ ∈ (Monitor.settle s.handle now).pendingCallbacks.map _
      rw [pending, if_neg (by rw [before]; decide), ← label]
      refine List.mem_map_of_mem (List.mem_filter.mpr ⟨inside, ?_⟩)
      simp [CallbackData.atEnd, unsent.2.2]
    · rw [Loop.waiting_nil none] at waiting
      cases waiting

end Dispatch

theorem State.Sound.step {s t : State} {event : Event} (sound : s.Sound) (stepped : s.step event = some t) :
    t.Sound := by
  cases event with
  | begin uri eventType =>
    cases stepped
    exact sound.begin uri eventType
  | enter i now =>
    rw [State.step] at stepped
    split at stepped
    · rename_i call called
      split at stepped
      · cases stepped
      · cases stepped
        exact sound.enter called
    · cases stepped
  | cancel =>
    rw [State.step] at stepped
    split at stepped
    · cases stepped
    · cases stepped
      exact sound.cancel
  | wake now =>
    rw [State.step] at stepped
    split at stepped
    · rename_i ready
      cases stepped
      exact sound.wake ready.1
    · cases stepped
  | collect =>
    rw [State.step] at stepped
    split at stepped
    · rename_i now timed
      split at stepped
      · cases stepped
      · split at stepped
        · rename_i cancelled
          cases stepped
          exact sound.destroy rfl rfl rfl rfl cancelled rfl (fun _ _ _ never => by cases never)
        · cases stepped
          exact sound.collect timed
    · cases stepped
  | start =>
    rw [State.step] at stepped
    split at stepped
    · rename_i now place left loop
      obtain ⟨data, here, rfl⟩ := Option.map_eq_some_iff.mp stepped
      exact sound.start loop here
    · cases stepped
  | finish =>
    rw [State.step] at stepped
    split at stepped
    · rename_i now place left loop
      cases stepped
      exact sound.finish loop
    · cases stepped
  | settle =>
    rw [State.step] at stepped
    split at stepped
    · rename_i now running loop
      cases stepped
      exact sound.settle loop
    · cases stepped

/-- Calls from any threads, dispatches and callbacks in any order: at every moment a change that a call
has told of has been reported since the call began, or it is queued, or its callback is being dispatched
and has not been started, unless the call has been merged with a callback that was running when it
began. No assertion fails. -/
theorem State.run_reports {clock : Nat} {s : State} (run : Run State.step State.allowed (State.new clock) s) :
    s.aborted = false ∧ (s.handle.cancelled = false →
      ∀ call ∈ s.calls, call.returned = true → call.late = false →
        (call.uri, call.eventType) ∈ s.started.drop call.begun ∨
        (∃ data ∈ s.handle.pendingCallbacks,
          data.infoUri = call.uri ∧ data.eventType = call.eventType ∧ data.sendState = .notSent) ∨
        ∃ place ∈ s.loop.waiting, ∃ data, s.handle.pendingCallbacks[place]? = some data ∧
          data.infoUri = call.uri ∧ data.eventType = call.eventType ∧ data.sendState = .sending) := by
  have sound : s.Sound := by
    apply run.keeps (P := fun s => s.Sound) (State.Sound.new clock)
    intro s event t sound _ stepped
    exact sound.step stepped
  refine ⟨sound.calm, ?_⟩
  intro live call member returned fine
  rcases sound.reported live call member returned fine with done | queued | ⟨place, waiting, there⟩
  · exact Or.inl done
  · right
    left
    obtain ⟨data, inside, label⟩ := List.mem_map.mp queued
    rw [CallbackData.label, Prod.mk.injEq, Prod.mk.injEq] at label
    exact ⟨data, inside, label⟩
  · right
    right
    rw [Handle.labels, List.getElem?_map] at there
    obtain ⟨data, here, label⟩ := Option.map_eq_some_iff.mp there
    rw [CallbackData.label, Prod.mk.injEq, Prod.mk.injEq] at label
    exact ⟨place, waiting, data, here, label⟩

/-- A first change is told of, and its callback is about to be started. -/
def dispatching : List Event := [.begin [47] .changed, .enter 0 5, .wake 5, .collect]

/-- A second change is told of while the callback for the first one is running. -/
def lost : List Event := dispatching ++ [.start, .begin [47] .changed, .enter 1 6, .finish, .settle]

theorem dispatching_reports : ∃ s, Run State.step State.allowed (State.new 5) s ∧
    s.calls = [⟨[47], .changed, 0, true, false⟩] ∧ s.loop.waiting = [0] ∧ s.aborted = false := by
  have followed : ∃ s, dispatching.foldlM (guarded State.step State.allowed) (State.new 5) = some s ∧
      s.calls = [⟨[47], .changed, 0, true, false⟩] ∧ s.loop.waiting = [0] := ⟨_, rfl, rfl, rfl⟩
  obtain ⟨s, followed, calls, waiting⟩ := followed
  have run := Run.of_foldlM _ followed
  exact ⟨s, run, calls, waiting, (State.run_reports run).1⟩

/-- While a callback is about to be started, its change has not been reported and is not queued any
longer; and what is told of while it is running is never reported. -/
theorem dispatching_unreported :
    (∃ s, Run State.step State.allowed (State.new 5) s ∧ s.handle.cancelled = false ∧
      ∃ call ∈ s.calls, call.returned = true ∧ (call.uri, call.eventType) ∉ s.started.drop call.begun ∧
        ¬ ∃ data ∈ s.handle.pendingCallbacks,
          data.infoUri = call.uri ∧ data.eventType = call.eventType ∧ data.sendState = .notSent) ∧
    (∃ s, Run State.step State.allowed (State.new 5) s ∧ s.handle.cancelled = false ∧ s.loop = .idle ∧
      s.handle.pendingTimeout = none ∧ ∃ call ∈ s.calls, call.returned = true ∧
        (call.uri, call.eventType) ∉ s.started.drop call.begun ∧
        ¬ ∃ data ∈ s.handle.pendingCallbacks, data.sendState ≠ .sent) := by
  have first : ∃ s, dispatching.foldlM (guarded State.step State.allowed) (State.new 5) = some s ∧
      s.handle.cancelled = false ∧ s.started = [] ∧ s.calls = [⟨[47], .changed, 0, true, false⟩] ∧
      s.handle.pendingCallbacks = [⟨[47], .changed, .sending, 5⟩] := ⟨_, rfl, rfl, rfl, rfl, rfl⟩
  have second : ∃ s, lost.foldlM (guarded State.step State.allowed) (State.new 5) = some s ∧
      s.handle.cancelled = false ∧ s.loop = .idle ∧ s.handle.pendingTimeout = none ∧
      s.started = [([47], .changed)] ∧
      s.calls = [⟨[47], .changed, 0, true, false⟩, ⟨[47], .changed, 1, true, true⟩] ∧
      s.handle.pendingCallbacks = [⟨[47], .changed, .sent, 5⟩] := ⟨_, rfl, rfl, rfl, rfl, rfl, rfl, rfl⟩
  constructor
  · obtain ⟨s, followed, live, started, calls, pending⟩ := first
    refine ⟨s, Run.of_foldlM _ followed, live, ⟨[47], .changed, 0, true, false⟩, ?_, rfl, ?_, ?_⟩
    · rw [calls]
      exact List.mem_cons_self
    · rw [started]
      exact List.not_mem_nil
    · rw [pending]
      simp
  · obtain ⟨s, followed, live, idle, timeout, started, calls, pending⟩ := second
    refine ⟨s, Run.of_foldlM _ followed, live, idle, timeout, ⟨[47], .changed, 1, true, true⟩, ?_, rfl, ?_, ?_⟩
    · rw [calls]
      exact List.mem_cons_of_mem _ List.mem_cons_self
    · rw [started]
      exact List.not_mem_nil
    · rw [pending]
      simp

end GnomeVfs.Monitor
