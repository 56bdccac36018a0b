import GnomeVfs.AsyncAccount

/- What the main loop and the threads meet once `_gnome_vfs_job_queue_shutdown` has run. -/
namespace GnomeVfs.Async

open Transition

section Ended

/-- Behind the loop of the shutdown no job is left and nothing is acknowledged; once the callback
map is destroyed a notification can only be found invalid. -/
structure Ended (s : State) : Prop where
  live : s.live = ∅
  quits : s.quitting = true
  acks : s.acks = []
  main : s.main = .idle ∨ s.shutdown = .done ∧ ∃ id, s.main = .checked id false false
  map : s.shutdown = .done → s.callbackMap = none

/-- The shutdown is behind its loop. -/
def State.pastLoop (s : State) : Prop := s.shutdown = .mapDown ∨ s.shutdown = .done

/-- The invariant of the shutdown. -/
structure Closing (s : State) : Prop where
  counted : Counted s
  quits : s.shutdown ≠ .notCalled → s.quitting = true
  ended : s.pastLoop → Ended s

variable {s t : State}

theorem Ended.of_eq (ended : Ended s) (live : t.live = s.live) (quits : t.quitting = s.quitting)
    (acks : t.acks = s.acks) (main : t.main = s.main) (shutdown : t.shutdown = s.shutdown)
    (map : t.callbackMap = s.callbackMap) : Ended t := by
  refine ⟨live ▸ ended.live, quits ▸ ended.quits, acks ▸ ended.acks, ?_, ?_⟩
  · rw [main, shutdown]
    exact ended.main
  · rw [map, shutdown]
    exact ended.map

theorem Ended.not_mem (ended : Ended s) {h : Nat} : h ∉ s.live := by
  rw [ended.live]
  exact Finset.notMem_empty h

theorem Ended.not_removed (ended : Ended s) {id : Nat} {valid cancelled : Bool} :
    s.main ≠ .removed id valid cancelled := by
  intro here
  rcases ended.main with free | ⟨-, id', at_⟩
  · rw [here] at free
    cases free
  · rw [here] at at_
    cases at_

/-- Without a job a thread can only go away. -/
theorem Ended.worked {i : Nat} {thread : Thread} (ended : Ended s) (worked : Worked s i thread t) :
    Ended t := by
  cases worked with
  | bails _ => exact ended.of_eq rfl rfl rfl rfl rfl rfl
  | returns _ => exact ended.of_eq rfl rfl rfl rfl rfl rfl
  | idles _ _ _ _ _ _ => exact ended.of_eq rfl rfl rfl rfl rfl rfl
  | moves _ _ alive _ _ _ => exact absurd alive ended.not_mem
  | refused _ _ alive _ _ _ _ _ => exact absurd alive ended.not_mem
  | added _ _ _ _ _ alive _ _ _ _ _ _ => exact absurd alive ended.not_mem
  | frees _ _ _ alive => exact absurd alive ended.not_mem

/-- A job that is started behind the loop is freed at once. -/
theorem Ended.launched {type : OpType} (ended : Ended s)
    (went : Went (jobNew s type) (s.nextJob + 1) t) : Ended t := by
  cases went with
  | queued serves =>
    have quits : (jobNew s type).quitting = true := ended.quits
    rw [quits] at serves
    cases serves
  | dropped _ serves _ _ =>
    have quits : (jobNew s type).quitting = true := ended.quits
    rw [quits] at serves
    cases serves
  | destroyed _ _ =>
    refine ended.of_eq ?_ rfl rfl rfl rfl rfl
    have fresh : s.nextJob + 1 ∉ s.live := ended.not_mem
    exact Finset.erase_insert fresh

theorem Ended.happened {e : Event} (ended : Ended s) (past : s.pastLoop)
    (happened : Happened s e t) : Ended t := by
  cases happened with
  | launched type _ _ went => exact ended.launched went
  | operated h _ _ _ _ alive _ => exact absurd alive ended.not_mem
  | cancelledJob h _ alive => exact absurd alive ended.not_mem
  | worked i thread _ _ worked => exact ended.worked worked
  | dispatched k id valid cancelled _ outside _ looked =>
    have atEnd : s.shutdown = .done := past.resolve_left outside
    have nothing := ended.map atEnd
    rcases looked with ⟨-, -, rfl, rfl⟩ | ⟨m, mapped, -⟩
    · exact ⟨ended.live, ended.quits, ended.acks, Or.inr ⟨atEnd, id, rfl⟩, ended.map⟩
    · rw [nothing] at mapped
      cases mapped
  | removed id valid cancelled m at_ mapped =>
    rcases ended.main with free | ⟨atEnd, -⟩
    · rw [at_] at free
      cases free
    · rw [ended.map atEnd] at mapped
      cases mapped
  | discarded _ _ _ at_ => exact absurd at_ ended.not_removed
  | ignored _ _ at_ => exact absurd at_ ended.not_removed
  | closed _ _ at_ => exact absurd at_ ended.not_removed
  | unmapped _ _ at_ => exact absurd at_ ended.not_removed
  | called _ _ at_ => exact absurd at_ ended.not_removed
  | answered _ _ _ at_ => exact absurd at_ ended.not_removed
  | silenced _ _ _ at_ => exact absurd at_ ended.not_removed
  | acknowledged _ _ _ _ _ at_ =>
    rw [ended.acks] at at_
    cases at_
  | unheard _ _ _ at_ =>
    rw [ended.acks] at at_
    cases at_
  | quits waits => simp [State.pastLoop, waits] at past
  | mapGone _ waits => simp [State.pastLoop, waits] at past
  | mapDown _ _ waits => simp [State.pastLoop, waits] at past
  | callbacksDown waits =>
    refine ⟨ended.live, ended.quits, ended.acks, ?_, fun _ => rfl⟩
    rcases ended.main with free | ⟨atEnd, -⟩
    · exact Or.inl free
    · rw [waits] at atEnd
      cases atEnd
  | _ => exact ended.of_eq rfl rfl rfl rfl rfl rfl

theorem Went.shutdown {h : Nat} (went : Went s h t) :
    t.shutdown = s.shutdown ∧ t.quitting = s.quitting := by
  cases went <;> exact ⟨rfl, rfl⟩

theorem Worked.shutdown {i : Nat} {thread : Thread} (worked : Worked s i thread t) :
    t.shutdown = s.shutdown ∧ t.quitting = s.quitting := by
  cases worked <;> exact ⟨rfl, rfl⟩

theorem Closing.of_eq (closing : Closing s) (counted : Counted t) (early : ¬ s.pastLoop)
    (same : t.shutdown = s.shutdown ∧ t.quitting = s.quitting) : Closing t := by
  refine ⟨counted, ?_, ?_⟩
  · rw [same.1, same.2]
    exact closing.quits
  · intro past
    rw [State.pastLoop, same.1] at past
    exact absurd past early

theorem Closing.loopLeft (closing : Closing s) (counted : Counted t) (live : t.live = s.live)
    (quits : t.quitting = s.quitting) (waits : s.shutdown = .waiting) (count : s.jobCount = 0)
    (acks : t.acks = []) (main : t.main = .idle) (down : t.shutdown = .mapDown) : Closing t := by
  have begun : s.quitting = true := closing.quits (by simp [waits])
  have none : s.live = ∅ := by
    rw [closing.counted.count] at count
    exact Finset.card_eq_zero.mp (by omega)
  refine ⟨counted, fun _ => quits ▸ begun, fun _ => ?_⟩
  exact ⟨live ▸ none, quits ▸ begun, acks, Or.inl main, by simp [down]⟩

theorem Closing.happened {e : Event} (closing : Closing s) (happened : Happened s e t) : Closing t := by
  have counted := closing.counted.happened happened
  by_cases past : s.pastLoop
  · have ended := (closing.ended past).happened past happened
    exact ⟨counted, fun _ => ended.quits, fun _ => ended⟩
  · cases happened with
    | launched _ _ _ went => exact closing.of_eq counted past went.shutdown
    | operated _ _ _ _ _ _ went => exact closing.of_eq counted past went.shutdown
    | closed _ _ _ _ _ _ _ _ went => exact closing.of_eq counted past went.shutdown
    | worked _ _ _ _ worked => exact closing.of_eq counted past worked.shutdown
    | quits _ => exact ⟨counted, fun _ => rfl, by simp [State.pastLoop]⟩
    | mapGone _ waits count answered free =>
      exact closing.loopLeft counted rfl rfl waits count answered free rfl
    | mapDown _ _ waits count answered free =>
      exact closing.loopLeft counted rfl rfl waits count answered free rfl
    | callbacksDown waits => exact absurd (Or.inl waits) past
    | _ => exact closing.of_eq counted past ⟨rfl, rfl⟩

theorem Closing.initial : Closing initial :=
  ⟨Accounted.initial.counted, by simp [Async.initial], by simp [State.pastLoop, Async.initial]⟩

end Ended

section Outstanding

def Phase.isAdding : Phase → Bool
  | .adding _ _ => true
  | _ => false

/-- No notification is in the queue of the main loop or about to be put there. -/
def NoneOutstanding (s : State) : Prop :=
  s.idle = [] ∧ ∀ thread ∈ s.threads, thread.phase.isAdding = false

instance (s : State) : Decidable (NoneOutstanding s) := inferInstanceAs (Decidable (_ ∧ _))

/-- Everything but the start of another job, which the job map does not allow any more. -/
def notLaunch : Event → Prop
  | .launch _ _ => False
  | _ => True

instance : DecidablePred notLaunch
  | .launch _ _ => .isFalse id
  | .operate _ _ _ | .cancel _ | .worker _ _ _ | .callModule _ | .endExecute _ | .dispatch _
  | .removeCallback | .conclude _ | .acknowledge _ | .quit | .mapShutdown
  | .callbackMapDestroy => .isTrue trivial

variable {s t : State}

/-- Nothing is left to do but for threads to go away and for operations to miss their job. -/
structure Over (s : State) : Prop where
  ended : Ended s
  done : s.shutdown = .done
  free : s.main = .idle
  clear : NoneOutstanding s

/-- The steps of a thread without a job. -/
theorem Over.worker_cases {i : Nat} {thread : Thread} {ok handle : Bool} (atEnd : Over s)
    (found : s.threads[i]? = some thread) (stepped : workerStep s i thread ok handle = some t) :
    t = s.setPhase i thread.job .gone ∨ t = s.fail .freedJob := by
  have dead : thread.job ∉ s.live := atEnd.ended.not_mem
  rw [workerStep] at stepped
  split at stepped
  · rw [begin, if_pos dead] at stepped
    exact Or.inr (Option.some.inj stepped).symm
  · rw [execute, if_pos dead] at stepped
    exact Or.inr (Option.some.inj stepped).symm
  · rw [report] at stepped
    split at stepped
    · cases stepped
    · exact Or.inr (Option.some.inj stepped).symm
  · rename_i id r adds
    have other := atEnd.clear.2 thread (List.mem_of_getElem? found)
    rw [adds] at other
    cases other
  · rw [condWait, if_pos dead] at stepped
    exact Or.inr (Option.some.inj stepped).symm
  · cases stepped
  · rw [resume, if_pos dead] at stepped
    exact Or.inr (Option.some.inj stepped).symm
  · rw [complete, if_pos dead] at stepped
    exact Or.inr (Option.some.inj stepped).symm
  · rename_i done _
    rw [leave] at stepped
    cases done with
    | false => exact Or.inl (Option.some.inj stepped).symm
    | true =>
      rw [if_neg (by simp), if_pos dead] at stepped
      exact Or.inr (Option.some.inj stepped).symm
  · cases stepped

theorem Over.step_cases {e : Event} (atEnd : Over s) (other : notLaunch e) (stepped : step s e = some t) :
    t = s ∨ (∃ h, t = cancelCallbacks s h) ∨ (∃ i h, t = s.setPhase i h .gone) ∨ t = s.fail .freedJob := by
  have dead : ∀ h, h ∉ s.live := fun h => atEnd.ended.not_mem
  rw [Async.step.eq_def] at stepped
  split at stepped
  · cases stepped
  · cases e with
    | launch type pushed => exact other.elim
    | operate h type pushed =>
      simp only [operate] at stepped
      split at stepped
      · cases stepped
      · split at stepped
        · exact Or.inl (Option.some.inj stepped).symm
        · rw [if_pos (dead h)] at stepped
          exact Or.inr (Or.inr (Or.inr (Option.some.inj stepped).symm))
    | cancel h =>
      simp only [cancel] at stepped
      split at stepped
      · exact Or.inr (Or.inl ⟨h, (Option.some.inj stepped).symm⟩)
      · rw [if_pos (dead h)] at stepped
        exact Or.inr (Or.inr (Or.inr (Option.some.inj stepped).symm))
    | worker i ok handle =>
      obtain ⟨thread, found, stepped⟩ := Option.bind_eq_some_iff.mp stepped
      rcases atEnd.worker_cases found stepped with gone | freed
      · exact Or.inr (Or.inr (Or.inl ⟨i, thread.job, gone⟩))
      · exact Or.inr (Or.inr (Or.inr freed))
    | callModule i =>
      obtain ⟨h, r, _, stepped⟩ := runningStep_cases stepped
      rw [callModule, if_pos (dead h)] at stepped
      exact Or.inr (Or.inr (Or.inr (Option.some.inj stepped).symm))
    | endExecute i =>
      obtain ⟨h, r, _, stepped⟩ := runningStep_cases stepped
      rw [endExecute, if_pos (dead h)] at stepped
      exact Or.inr (Or.inr (Or.inr (Option.some.inj stepped).symm))
    | dispatch k => simp [dispatch, atEnd.free, atEnd.done, atEnd.clear.1] at stepped
    | removeCallback => simp [removeCallback, atEnd.free] at stepped
    | conclude pushed => simp [conclude, atEnd.free] at stepped
    | acknowledge i => simp [acknowledge, atEnd.free, atEnd.ended.acks] at stepped
    | quit => simp [quit, atEnd.done] at stepped
    | mapShutdown => simp [mapShutdown, atEnd.done] at stepped
    | callbackMapDestroy => simp [callbackMapDestroy, atEnd.done] at stepped

theorem Over.setPhase (atEnd : Over s) (i h : Nat) : Over (s.setPhase i h .gone) := by
  refine ⟨atEnd.ended.of_eq rfl rfl rfl rfl rfl rfl, atEnd.done, atEnd.free, atEnd.clear.1, ?_⟩
  intro thread member
  rcases List.mem_or_eq_of_mem_set member with before | here
  · exact atEnd.clear.2 thread before
  · rw [here]
    rfl

/-- Without an outstanding notification nothing is called and no assertion fails any more. -/
theorem Over.silent (alive : s.fault = none) (atEnd : Over s) (run : Run step (fun _ e => notLaunch e) s t) :
    t.fault ≠ some .assertion ∧ t.ran = s.ran := by
  have kept : (t.fault ≠ some .assertion ∧ t.ran = s.ran) ∧ (t.fault = none → Over t) := by
    apply run.keeps (P := fun t => (t.fault ≠ some .assertion ∧ t.ran = s.ran) ∧ (t.fault = none → Over t))
    · exact ⟨⟨by simp [alive], rfl⟩, fun _ => atEnd⟩
    · rintro u e v ⟨⟨safe, same⟩, still⟩ fits stepped
      have fine : u.fault = none := by
        rw [Async.step.eq_def] at stepped
        split at stepped
        · cases stepped
        · rename_i fine
          simpa using fine
      rcases (still fine).step_cases fits stepped with rfl | ⟨h, rfl⟩ | ⟨i, h, rfl⟩ | rfl
      · exact ⟨⟨safe, same⟩, still⟩
      · have before := still fine
        exact ⟨⟨safe, same⟩, fun _ => ⟨before.ended.of_eq rfl rfl rfl rfl rfl rfl, before.done,
          before.free, before.clear⟩⟩
      · exact ⟨⟨safe, same⟩, fun _ => (still fine).setPhase i h⟩
      · refine ⟨⟨?_, same⟩, fun never => absurd never (fail_fault _ _)⟩
        rw [State.fail, fine]
        simp
  exact kept.1

end Outstanding

end GnomeVfs.Async
