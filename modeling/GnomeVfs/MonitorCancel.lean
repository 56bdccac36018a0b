import GnomeVfs.MonitorTimeout

/- What follows the cancelling of a monitor. -/
namespace GnomeVfs.MonitorDispatch

open Monitor Transition

/-- What any run does: the main loop numbers its sources, and its thread cancels. -/
def State.cancelling (s : State) (event : Event) : Prop := s.allowed event ∧ s.onMainLoop event

/-- The steps of a run in which nothing comes between a dispatch and its source or its batch. -/
def State.careful (s : State) (event : Event) : Prop :=
  s.cancelling event ∧ s.lastOfBatch event ∧ s.tidy event ∧ s.unnested event

instance (s : State) (event : Event) : Decidable (s.cancelling event) := instDecidableAnd

instance (s : State) (event : Event) : Decidable (s.careful event) := instDecidableAnd

section Invariant

/-- A monitor that has been cancelled has been destroyed, or it will be by the dispatch that has no
callback left to start. -/
def State.Ends (s : State) : Prop :=
  s.Sound ∧ (s.handle.cancelled = true → s.handle.inDispatch = true ∧ s.waiting = []) ∨ s.Gone

variable {s t : State} {source now next place : Nat} {left : List Nat} {frames : List Frame} {running : Bool}

theorem State.Sound.destroy (sound : s.Sound) (quiet : s.frames = []) (cancelled : s.handle.cancelled = true) :
    s.destroyMonitorHandle.Gone := by
  unfold State.destroyMonitorHandle
  rw [State.removeTimeout_eq]
  refine ⟨?_, cancelled, quiet, removed_timeout sound.sources, sound.calm, sound.untouched⟩
  show s.destroyed + 1 = 1
  rw [sound.kept]

theorem State.Ends.live (ends : s.Ends) (live : s.handle.cancelled = false) : s.Sound := by
  rcases ends with ⟨sound, -⟩ | gone
  · exact sound
  · exact absurd gone.cancelled (by rw [live]; decide)

theorem State.Ends.enter (ends : s.Ends) {uri : Bytes} {eventType : EventType} (kept : s.destroyed = 0)
    (fresh : s.lastSource < source) (told : List (Bytes × EventType)) :
    (State.monitorCallback { s with clock := now, told := told } uri eventType now source).Ends ∧
      (s.handle.cancelled = true →
        (State.monitorCallback { s with clock := now, told := told } uri eventType now source).handle.cancelled = true ∧
        (State.monitorCallback { s with clock := now, told := told } uri eventType now source).started = s.started) := by
  rcases ends with ⟨sound, ending⟩ | gone
  · have same : s.handle.cancelled = true →
        State.monitorCallback { s with clock := now, told := told } uri eventType now source =
          { s with clock := now, told := told } := by
      intro cancelled
      exact if_pos cancelled
    constructor
    · refine Or.inl ⟨(sound.tell now told).monitorCallback fresh, ?_⟩
      intro cancelled
      cases live : s.handle.cancelled with
      | true =>
        rw [same live]
        exact ending live
      | false =>
        rw [(State.monitorCallback_frame (s := { s with clock := now, told := told }) uri eventType now source live).1]
          at cancelled
        cases cancelled
    · intro cancelled
      rw [same cancelled]
      exact ⟨cancelled, rfl⟩
  · rw [gone.once] at kept
    cases kept

theorem State.Sound.cancel (sound : s.Sound) (outside : s.outside = true) (last : ∀ frame ∈ s.frames, frame.waiting = []) :
    s.monitorDoCancel.Ends := by
  have marked : State.Sound { s with handle := { s.handle with cancelled := true } } :=
    ⟨sound.kept, sound.calm, sound.untouched, sound.sources, sound.known, sound.single, sound.dispatched,
      sound.dispatching, sound.idle, sound.batch⟩
  unfold State.monitorDoCancel
  dsimp only
  split
  · rename_i dispatching
    refine Or.inl ⟨marked, fun _ => ⟨dispatching, ?_⟩⟩
    rw [State.waiting, List.flatMap_eq_nil_iff]
    exact last
  · rename_i resting
    refine Or.inr (marked.destroy ?_ rfl)
    show s.frames = []
    -- a frame that is not sending would not let the application run
    cases here : s.frames with
    | nil => rfl
    | cons frame frames =>
      cases frame with
      | timed source now =>
        rw [State.outside, here] at outside
        cases outside
      | sending source now left running =>
        exact absurd (sound.dispatching.mpr ⟨_, _, _, _, by rw [here]; exact List.mem_cons_self⟩) resting

theorem State.Ends.wake (ends : s.Ends) (quiet : s.frames = []) (installed : source ∈ s.sources) :
    State.Ends { s with frames := .timed source now :: s.frames, clock := now } := by
  rcases ends with ⟨sound, ending⟩ | gone
  · refine Or.inl ⟨sound.wake quiet installed, ?_⟩
    intro cancelled
    obtain ⟨dispatching, -⟩ := ending cancelled
    obtain ⟨_, _, _, _, never⟩ := sound.dispatching.mp dispatching
    rw [quiet] at never
    cases never
  · rw [gone.sources] at installed
    cases installed

theorem State.Ends.collect (ends : s.Ends) (here : s.frames = .timed source now :: frames) :
    (s.use (s.collect source now frames)).Ends ∧ s.handle.cancelled = false := by
  rcases ends with ⟨sound, ending⟩ | gone
  · have live : s.handle.cancelled = false := by
      rw [Bool.eq_false_iff]
      intro cancelled
      obtain ⟨_, _, _, _, member⟩ := sound.dispatching.mp (ending cancelled).1
      rw [here, sound.outer here] at member
      cases List.mem_singleton.mp member
    rw [State.use, if_neg (by rw [sound.kept]; decide)]
    refine ⟨Or.inl ⟨sound.collect here live, ?_⟩, live⟩
    intro cancelled
    rw [State.collect, if_neg (by rw [live]; decide)] at cancelled
    rw [show s.handle.cancelled = true from cancelled] at live
    cases live
  · rw [gone.frames] at here
    cases here

theorem State.Ends.start (ends : s.Ends) {log : List (Bytes × EventType)}
    (here : s.frames = .sending source now (place :: left) false :: frames) :
    (s.use { s with frames := .sending source now (place :: left) true :: frames, started := log }).Ends ∧
      s.handle.cancelled = false := by
  rcases ends with ⟨sound, ending⟩ | gone
  · have live : s.handle.cancelled = false := by
      rw [Bool.eq_false_iff]
      intro cancelled
      have never := (ending cancelled).2
      rw [State.waiting, here] at never
      cases never
    rw [State.use, if_neg (by rw [sound.kept]; decide)]
    refine ⟨Or.inl ⟨sound.start here, ?_⟩, live⟩
    intro cancelled
    rw [show s.handle.cancelled = true from cancelled] at live
    cases live
  · rw [gone.frames] at here
    cases here

theorem State.Ends.finish (ends : s.Ends) (here : s.frames = .sending source now (place :: left) true :: frames) :
    (s.use { s with handle := s.handle.markSent place, frames := .sending source now left false :: frames }).Ends ∧
      s.destroyed = 0 := by
  rcases ends with ⟨sound, ending⟩ | gone
  · rw [State.use, if_neg (by rw [sound.kept]; decide)]
    refine ⟨Or.inl ⟨sound.finish here, ?_⟩, sound.kept⟩
    intro cancelled
    obtain ⟨dispatching, waiting⟩ := ending cancelled
    rw [State.waiting, here] at waiting
    exact ⟨dispatching, waiting⟩
  · rw [gone.frames] at here
    cases here

theorem State.Ends.settle (ends : s.Ends) (here : s.frames = .sending source now [] running :: frames)
    (fresh : s.lastSource < next)
    (tidy : s.handle.cancelled = false → noLiveCallbacks (s.handle.remaining now) = true → s.handle.pendingTimeout = source) :
    (s.use (State.sourceRemove (State.settle { s with frames := frames, aborted := s.sendingAny } now next) source)).Ends ∧
      s.destroyed = 0 := by
  rcases ends with ⟨sound, ending⟩ | gone
  · rw [State.use, if_neg (by rw [sound.kept]; decide)]
    refine ⟨?_, sound.kept⟩
    cases live : s.handle.cancelled with
    | false =>
      refine Or.inl ⟨sound.settle here live fresh (tidy live), ?_⟩
      unfold State.settle
      dsimp only
      rw [if_neg (by rw [live]; decide)]
      split
      · intro cancelled
        rw [show s.handle.cancelled = true from cancelled] at live
        cases live
      · rw [State.installTimeout, State.removeTimeout_eq]
        intro cancelled
        rw [show s.handle.cancelled = true from cancelled] at live
        cases live
    | true =>
      right
      have none := sound.outer here
      have empty : s.left = [] := by
        rw [State.left, here, none]
        rfl
      unfold State.settle
      dsimp only
      rw [if_pos live, none, State.destroyMonitorHandle, State.removeTimeout_eq]
      refine ⟨?_, live, rfl, ?_, sound.sendingAny empty, sound.untouched⟩
      · show s.destroyed + 1 = 1
        rw [sound.kept]
      · show List.filter _ (if s.handle.pendingTimeout ≠ 0 then _ else _) = []
        rw [removed_timeout sound.sources]
        rfl
  · rw [gone.frames] at here
    cases here

end Invariant

section Runs

variable {s t : State} {event : Event}

/-- A careful step leaves a cancelled monitor cancelled, and starts no callback for it. -/
theorem State.Ends.step (ends : s.Ends) (careful : s.careful event) (stepped : s.step event = some t) :
    t.Ends ∧ (s.handle.cancelled = true → t.handle.cancelled = true ∧ t.started = s.started) := by
  obtain ⟨⟨numbered, outside⟩, last, tidy, unnested⟩ := careful
  have going : ¬ (s.aborted = true ∨ s.dangling = true) := by
    rcases ends with ⟨sound, -⟩ | gone
    · rw [sound.calm, sound.untouched]
      decide
    · rw [gone.calm, gone.untouched]
      decide
  unfold State.step at stepped
  rw [if_neg going] at stepped
  cases event with
  | enter uri eventType now source =>
    dsimp only at stepped
    split at stepped
    · cases stepped
    · rename_i kept
      cases stepped
      exact ends.enter (by simpa using kept) numbered _
  | cancel =>
    dsimp only at stepped
    split at stepped
    · cases stepped
    · rename_i live
      cases stepped
      have live : s.handle.cancelled = false := by simpa using live
      refine ⟨(ends.live live).cancel outside last, ?_⟩
      intro cancelled
      rw [live] at cancelled
      cases cancelled
  | wake source now =>
    dsimp only at stepped
    split at stepped
    · rename_i ready
      cases stepped
      exact ⟨ends.wake unnested ready.1, fun cancelled => ⟨cancelled, rfl⟩⟩
    · cases stepped
  | collect =>
    dsimp only at stepped
    split at stepped
    · rename_i source now frames here
      cases stepped
      obtain ⟨after, live⟩ := ends.collect here
      exact ⟨after, fun cancelled => absurd cancelled (by rw [live]; decide)⟩
    · cases stepped
  | start =>
    dsimp only at stepped
    split at stepped
    · rename_i source now place left frames here
      obtain ⟨data, -, rfl⟩ := Option.map_eq_some_iff.mp stepped
      obtain ⟨after, live⟩ := ends.start here
      exact ⟨after, fun cancelled => absurd cancelled (by rw [live]; decide)⟩
    · cases stepped
  | finish =>
    dsimp only at stepped
    split at stepped
    · rename_i source now place left frames here
      cases stepped
      obtain ⟨after, kept⟩ := ends.finish here
      refine ⟨after, fun cancelled => ?_⟩
      rw [State.use, if_neg (by rw [kept]; decide)]
      exact ⟨cancelled, rfl⟩
    · cases stepped
  | settle next =>
    dsimp only at stepped
    split at stepped
    · rename_i source now running frames here
      cases stepped
      have tidy : (Frame.sending source now [] running).tidy s.handle := tidy _ (by rw [here]; rfl)
      obtain ⟨after, kept⟩ := ends.settle here numbered tidy
      refine ⟨after, fun cancelled => ?_⟩
      rw [State.use, if_neg (by rw [kept]; decide), State.settle]
      dsimp only
      rw [if_pos cancelled, State.destroyMonitorHandle, State.removeTimeout_eq]
      exact ⟨cancelled, rfl⟩
    · cases stepped

theorem State.ends_of_run {clock : Nat} (run : Run State.step State.careful (State.new clock) s) : s.Ends := by
  apply run.keeps (P := State.Ends) (Or.inl ⟨State.Sound.new clock, fun never => by cases never⟩)
  intro s event t ends careful stepped
  exact (ends.step careful stepped).1

/-- The dispatch that a cancelled monitor is in can be brought to its end. -/
theorem State.Sound.ending (sound : s.Sound) (cancelled : s.handle.cancelled = true)
    (dispatching : s.handle.inDispatch = true) (waiting : s.waiting = []) :
    ∃ t, Run State.step State.careful s t ∧ t.destroyed = 1 := by
  have ending : ∀ (s : State) (source now : Nat), s.Sound → s.handle.cancelled = true →
      (∃ running, s.frames = [.sending source now [] running]) →
      ∃ t, Run State.step State.careful s t ∧ t.destroyed = 1 := by
    intro s source now sound cancelled here
    obtain ⟨running, here⟩ := here
    have careful : s.careful (.settle (s.lastSource + 1)) := by
      refine ⟨⟨Nat.lt_succ_self _, trivial⟩, trivial, ?_, trivial⟩
      intro frame first
      rw [here] at first
      cases Option.mem_some.mp first
      intro live
      rw [cancelled] at live
      cases live
    have stepped : s.step (.settle (s.lastSource + 1)) = some (s.use (State.sourceRemove
        (State.settle { s with frames := [], aborted := s.sendingAny } now (s.lastSource + 1)) source)) := by
      unfold State.step
      rw [if_neg (by rw [sound.calm, sound.untouched]; decide)]
      dsimp only
      rw [here]
    refine ⟨_, .next _ .refl careful stepped, ?_⟩
    · rw [State.use, if_neg (by rw [sound.kept]; decide), State.settle]
      dsimp only
      rw [if_pos cancelled, State.destroyMonitorHandle, State.removeTimeout_eq]
      show s.destroyed + 1 = 1
      rw [sound.kept]
  obtain ⟨source, now, left, running, member⟩ := sound.dispatching.mp dispatching
  obtain ⟨frames, here⟩ : ∃ frames, s.frames = .sending source now left running :: frames := by
    cases frames : s.frames with
    | nil =>
      rw [frames] at member
      cases member
    | cons frame rest =>
      have none := sound.outer frames
      rw [frames, none] at member
      exact ⟨rest, by rw [List.mem_singleton.mp member]⟩
  have none := sound.outer here
  rw [none] at here
  cases left with
  | nil => exact ending s source now sound cancelled ⟨running, here⟩
  | cons place left =>
    rw [State.waiting, here] at waiting
    cases running with
    | false => cases waiting
    | true =>
      have empty : left = [] := by simpa [Frame.waiting] using waiting
      rw [empty] at here
      obtain ⟨t, run, done⟩ := ending _ source now (sound.finish here) cancelled ⟨false, rfl⟩
      refine ⟨t, Run.trans (.next .finish .refl ⟨⟨trivial, trivial⟩, trivial, trivial, trivial⟩ ?_) run, done⟩
      unfold State.step
      rw [if_neg (by rw [sound.calm, sound.untouched]; decide)]
      dsimp only
      rw [here]
      dsimp only
      rw [State.use, if_neg (by rw [sound.kept]; decide)]

/-- Where every callback that cancels the monitor is the last of its batch, no dispatch ends beside its
source, and none runs within another: after the cancelling no callback is started, and the monitor is
destroyed exactly once and not used again. -/
theorem State.run_cancelled {clock : Nat} (run : Run State.step State.careful (State.new clock) s)
    (cancelled : s.handle.cancelled = true) (later : Run State.step State.careful s t) :
    t.started = s.started ∧ t.destroyed ≤ 1 ∧ (t.frames = [] → t.destroyed = 1) ∧ t.aborted = false ∧
      t.dangling = false ∧ ∃ u, Run State.step State.careful t u ∧ u.destroyed = 1 := by
  have kept : t.Ends ∧ t.handle.cancelled = true ∧ t.started = s.started := by
    apply later.keeps (P := fun t => t.Ends ∧ t.handle.cancelled = true ∧ t.started = s.started)
      ⟨State.ends_of_run run, cancelled, rfl⟩
    intro t event u holds careful stepped
    obtain ⟨ends, cancelled, started⟩ := holds
    obtain ⟨after, same⟩ := ends.step careful stepped
    obtain ⟨still, unchanged⟩ := same cancelled
    exact ⟨after, still, unchanged.trans started⟩
  obtain ⟨ends, cancelled, started⟩ := kept
  rcases ends with ⟨sound, ending⟩ | gone
  · obtain ⟨dispatching, waiting⟩ := ending cancelled
    refine ⟨started, by rw [sound.kept]; decide, ?_, sound.calm, sound.untouched,
      sound.ending cancelled dispatching waiting⟩
    intro quiet
    obtain ⟨_, _, _, _, never⟩ := sound.dispatching.mp dispatching
    rw [quiet] at never
    cases never
  · exact ⟨started, Nat.le_of_eq gone.once, fun _ => gone.once, gone.calm, gone.untouched, t, .refl, gone.once⟩

/-- A callback cancels the monitor, and is the last of its batch. -/
def cancelledLast : List Event :=
  [.enter [47] .changed 5 1, .wake 1 5, .collect, .start, .enter [48] .changed 5 2, .cancel]

theorem State.run_cancelled_last : ∃ s t : State, s.started = [([47], .changed)] ∧ s.handle.cancelled = true ∧
    t.started = s.started ∧ t.destroyed ≤ 1 ∧ (t.frames = [] → t.destroyed = 1) ∧ t.aborted = false ∧
      t.dangling = false ∧ ∃ u, Run State.step State.careful t u ∧ u.destroyed = 1 := by
  have first : ∃ s, cancelledLast.foldlM (guarded State.step State.careful) (State.new 5) = some s ∧
      s.handle.cancelled = true ∧ s.started = [([47], .changed)] ∧
      ∃ t, [Event.finish, .settle 3].foldlM (guarded State.step State.careful) s = some t := ⟨_, rfl, rfl, rfl, _, rfl⟩
  obtain ⟨s, followed, cancelled, started, t, later⟩ := first
  exact ⟨s, t, started, cancelled,
    State.run_cancelled (Run.of_foldlM _ followed) cancelled (Run.of_foldlM _ later)⟩

/-- Two changes make one batch. -/
def batch : List Event := [.enter [47] .changed 5 1, .enter [48] .changed 5 2, .wake 1 5, .collect, .start, .cancel]

/-- A change is dispatched while one that has been reported is told of again, which is due at once. -/
def retold : List Event :=
  [.enter [47] .changed 5 1, .wake 1 5, .collect, .start, .finish, .settle 2, .enter [48] .changed 9 2, .wake 2 9]

/-- It is told of again before the dispatch has taken the lock. -/
def raced : List Event := retold ++
  [Event.enter [47] .changed 9 3, .collect, .start, .finish, .start, .finish, .settle 4, .cancel]

/-- It is told of again while the callback runs, which cancels the monitor. -/
def nested : List Event := retold ++ [Event.collect, .start, .enter [47] .changed 9 3, .cancel]

/-- After the cancelling, the rest of a batch is started, the source of a timeout that has been forgotten
uses the monitor when it has been destroyed, and so does a callback that has run the main loop. -/
theorem batch_cancelled :
    (∃ s t, Run State.step State.cancelling (State.new 5) s ∧ s.handle.cancelled = true ∧
      Run State.step State.cancelling s t ∧ t.started ≠ s.started) ∧
    (∃ s t, Run State.step (fun s e => s.cancelling e ∧ s.lastOfBatch e ∧ s.unnested e) (State.new 5) s ∧
      s.handle.cancelled = true ∧
      Run State.step (fun s e => s.cancelling e ∧ s.lastOfBatch e ∧ s.unnested e) s t ∧ t.dangling = true) ∧
    (∃ s t, Run State.step (fun s e => s.cancelling e ∧ s.lastOfBatch e ∧ s.tidy e) (State.new 5) s ∧
      s.handle.cancelled = true ∧
      Run State.step (fun s e => s.cancelling e ∧ s.lastOfBatch e ∧ s.tidy e) s t ∧ t.dangling = true) := by
  have first : ∃ s, batch.foldlM (guarded State.step State.cancelling) (State.new 5) = some s ∧
      s.handle.cancelled = true ∧ s.started = [([47], .changed)] ∧
      ∃ t, [Event.finish, .start].foldlM (guarded State.step State.cancelling) s = some t ∧
        t.started = [([47], .changed), ([48], .changed)] := ⟨_, rfl, rfl, rfl, _, rfl, rfl⟩
  have second : ∃ s, raced.foldlM (guarded State.step fun s e => s.cancelling e ∧ s.lastOfBatch e ∧ s.unnested e) (State.new 5) =
          some s ∧ s.handle.cancelled = true ∧
      ∃ t, [Event.wake 3 9, .collect].foldlM
        (guarded State.step fun s e => s.cancelling e ∧ s.lastOfBatch e ∧ s.unnested e) s = some t ∧
        t.dangling = true := ⟨_, rfl, rfl, _, rfl, rfl⟩
  have third : ∃ s, nested.foldlM (guarded State.step fun s e => s.cancelling e ∧ s.lastOfBatch e ∧ s.tidy e) (State.new 5) =
          some s ∧ s.handle.cancelled = true ∧
      ∃ t, [Event.wake 3 9, .collect, .finish].foldlM
        (guarded State.step fun s e => s.cancelling e ∧ s.lastOfBatch e ∧ s.tidy e) s = some t ∧
        t.dangling = true := ⟨_, rfl, rfl, _, rfl, rfl⟩
  constructor
  · obtain ⟨s, followed, cancelled, started, t, later, more⟩ := first
    refine ⟨s, t, Run.of_foldlM _ followed, cancelled, Run.of_foldlM _ later, ?_⟩
    rw [started, more]
    decide
  constructor
  · obtain ⟨s, followed, cancelled, t, later, dangling⟩ := second
    exact ⟨s, t, Run.of_foldlM _ followed, cancelled, Run.of_foldlM _ later, dangling⟩
  · obtain ⟨s, followed, cancelled, t, later, dangling⟩ := third
    exact ⟨s, t, Run.of_foldlM _ followed, cancelled, Run.of_foldlM _ later, dangling⟩

end Runs

end GnomeVfs.MonitorDispatch
