import GnomeVfs.AsyncStep

/- The number of jobs, the jobs in the map and the jobs that have not been freed. -/
namespace GnomeVfs.Async

open Transition

section Counted

/-- `job_count` is the number of jobs that have not been freed. -/
structure Counted (s : State) : Prop where
  count : s.jobCount = s.live.card
  bound : ∀ h ∈ s.live, h ≤ s.nextJob

variable {s t : State} {h : Nat}

theorem Counted.erase (counted : Counted s) (alive : h ∈ s.live) :
    s.jobCount - 1 = (s.live.erase h).card := by
  have card := Finset.card_erase_add_one alive
  rw [counted.count]
  omega

theorem Counted.of_eq (counted : Counted s) (live : t.live = s.live) (count : t.jobCount = s.jobCount)
    (next : t.nextJob = s.nextJob) : Counted t := by
  refine ⟨?_, ?_⟩
  · rw [count, live]
    exact counted.count
  · rw [live, next]
    exact counted.bound

theorem Counted.of_erase (counted : Counted s) (alive : h ∈ s.live) (live : t.live = s.live.erase h)
    (count : t.jobCount = s.jobCount - 1) (next : t.nextJob = s.nextJob) : Counted t := by
  refine ⟨?_, ?_⟩
  · rw [count, live]
    exact counted.erase alive
  · rw [live, next]
    intro g member
    exact counted.bound g (Finset.mem_of_mem_erase member)

theorem Counted.jobNew (counted : Counted s) (type : OpType) : Counted (jobNew s type) := by
  have fresh : s.nextJob + 1 ∉ s.live := by
    intro member
    have := counted.bound _ member
    omega
  refine ⟨?_, ?_⟩
  · rw [Async.jobNew, Finset.card_insert_of_notMem fresh, counted.count]
    push_cast
    rfl
  · intro g member
    rcases Finset.mem_insert.mp member with rfl | before
    · exact le_refl _
    · exact Nat.le_succ_of_le (counted.bound g before)

theorem Counted.went (counted : Counted s) (went : Went s h t) : Counted t := by
  cases went with
  | queued _ => exact counted.of_eq rfl rfl rfl
  | destroyed _ alive => exact counted.of_erase alive rfl rfl rfl
  | dropped _ _ _ alive => exact counted.of_erase alive rfl rfl rfl

theorem Counted.worked {i : Nat} {thread : Thread} (counted : Counted s) (worked : Worked s i thread t) :
    Counted t := by
  cases worked with
  | frees _ _ _ alive => exact counted.of_erase alive rfl rfl rfl
  | _ => exact counted.of_eq rfl rfl rfl

theorem Counted.happened {e : Event} (counted : Counted s) (happened : Happened s e t) : Counted t := by
  cases happened with
  | launched type _ _ went => exact (counted.jobNew type).went went
  | operated _ _ _ _ _ _ went =>
    refine Counted.went ?_ went
    exact counted.of_eq rfl rfl rfl
  | closed _ _ _ _ _ _ _ _ went =>
    refine Counted.went ?_ went
    exact counted.of_eq rfl rfl rfl
  | worked i thread _ _ worked => exact counted.worked worked
  | _ => exact counted.of_eq rfl rfl rfl

end Counted

/-- An event that keeps the accounts: nothing is scheduled once the shutdown has begun, and where
a cancelled notification takes its job out of the map, the thread that found the job complete is
on its way to free it. -/
def accountable (s : State) : Event → Bool
  | .launch _ _ => !s.quitting
  | .operate h _ _ => !s.getJob h || !s.quitting
  | .conclude _ =>
    match s.main with
    | .removed id true true =>
      let h := (s.results id).jobHandle
      (s.results id).sync || !s.getJob h ||
        if opensJob (s.jobs h).op.type && (s.jobs h).handle then !s.quitting
        else decide (⟨h, .leaving true⟩ ∈ s.threads)
    | _ => true
  | _ => true

section Accounted

/-- The map holds only jobs that have not been freed, and all of them but those that a thread is
about to free. -/
structure Accounted (s : State) : Prop where
  counted : Counted s
  mapped : s.jobMap.getD ∅ ⊆ s.live
  left : ∀ h ∈ s.live, h ∈ s.jobMap.getD ∅ ∨ ⟨h, .leaving true⟩ ∈ s.threads

variable {s t : State} {h : Nat}

theorem Accounted.of_eq (accounted : Accounted s) (counted : Counted t) (live : t.live = s.live)
    (map : t.jobMap.getD ∅ = s.jobMap.getD ∅)
    (threads : ∀ h, ⟨h, .leaving true⟩ ∈ s.threads → ⟨h, .leaving true⟩ ∈ t.threads) : Accounted t := by
  refine ⟨counted, ?_, ?_⟩
  · rw [map, live]
    exact accounted.mapped
  · rw [map, live]
    intro g alive
    exact (accounted.left g alive).imp_right (threads g)

theorem Accounted.of_erase (accounted : Accounted s) (counted : Counted t) (live : t.live = s.live.erase h)
    (map : t.jobMap.getD ∅ = (s.jobMap.getD ∅).erase h)
    (threads : ∀ g, g ≠ h → ⟨g, .leaving true⟩ ∈ s.threads → ⟨g, .leaving true⟩ ∈ t.threads) :
    Accounted t := by
  refine ⟨counted, ?_, ?_⟩
  · rw [map, live]
    exact Finset.erase_subset_erase h accounted.mapped
  · rw [map, live]
    intro g alive
    obtain ⟨other, before⟩ := Finset.mem_erase.mp alive
    rcases accounted.left g before with there | leaving
    · exact Or.inl (Finset.mem_erase.mpr ⟨other, there⟩)
    · exact Or.inr (threads g other leaving)

theorem Accounted.jobNew (accounted : Accounted s) (type : OpType) : Accounted (jobNew s type) := by
  refine ⟨accounted.counted.jobNew type, ?_, ?_⟩
  · exact Finset.insert_subset_insert _ accounted.mapped
  · intro g alive
    rcases Finset.mem_insert.mp alive with rfl | before
    · exact Or.inl (Finset.mem_insert_self _ _)
    · exact (accounted.left g before).imp_left fun there => Finset.mem_insert_of_mem there

theorem Accounted.went (accounted : Accounted s) (went : Went s h t) (serves : s.quitting = false) :
    Accounted t := by
  have counted := accounted.counted.went went
  cases went with
  | queued _ =>
    apply accounted.of_eq counted rfl rfl
    intro g leaving
    exact List.mem_append_left _ leaving
  | destroyed quits _ =>
    rw [serves] at quits
    cases quits
  | dropped m _ mapped alive =>
    apply accounted.of_erase counted rfl
    · rw [getD_given_up, mapped, Option.getD_some]
    · intro g _ leaving
      exact List.mem_append_left _ leaving

theorem Accounted.worked {i : Nat} {thread : Thread} (accounted : Accounted s)
    (found : s.threads[i]? = some thread) (worked : Worked s i thread t) : Accounted t := by
  have counted := accounted.counted.worked worked
  have stays : ∀ phase, thread.phase ≠ .leaving true → ∀ g, ⟨g, .leaving true⟩ ∈ s.threads →
      ⟨g, .leaving true⟩ ∈ s.threads.set i ⟨thread.job, phase⟩ := by
    intro phase other g leaving
    apply mem_set_of_mem found leaving
    rintro rfl
    exact other rfl
  cases worked with
  | bails waits => exact accounted.of_eq counted rfl rfl (stays _ (by simp [waits]))
  | returns ends => exact accounted.of_eq counted rfl rfl (stays _ (by simp [ends]))
  | moves _ _ _ _ advances _ => exact accounted.of_eq counted rfl rfl (stays _ advances.stays)
  | refused _ _ _ _ advances _ _ _ => exact accounted.of_eq counted rfl rfl (stays _ advances.stays)
  | added _ _ _ _ _ _ _ _ advances _ _ _ => exact accounted.of_eq counted rfl rfl (stays _ advances.stays)
  | idles _ _ _ _ advances _ => exact accounted.of_eq counted rfl rfl (stays _ advances.stays)
  | frees m ends mapped alive =>
    apply accounted.of_erase counted rfl
    · rw [getD_given_up, mapped, Option.getD_some]
    · intro g other leaving
      apply mem_set_of_mem found leaving
      intro same
      exact other (congrArg Thread.job same)

theorem Accounted.happened {e : Event} (accounted : Accounted s) (fits : accountable s e = true)
    (happened : Happened s e t) : Accounted t := by
  have counted := accounted.counted.happened happened
  have same : ∀ h : Nat, (⟨h, .leaving true⟩ : Thread) ∈ s.threads → ⟨h, .leaving true⟩ ∈ s.threads :=
    fun _ leaving => leaving
  cases happened with
  | launched type _ _ went =>
    have serves : s.quitting = false := by simpa [accountable] using fits
    exact (accounted.jobNew type).went went serves
  | operated h _ _ _ found alive went =>
    have serves : s.quitting = false := by simpa [accountable, found] using fits
    refine Accounted.went ?_ went serves
    exact accounted.of_eq (accounted.counted.of_eq rfl rfl rfl) rfl rfl same
  | worked i thread found _ worked => exact accounted.worked found worked
  | closed _ id at_ oneway found alive opened handle went =>
    have serves : s.quitting = false := by
      simpa [accountable, at_, oneway, found, opened, handle] using fits
    refine Accounted.went ?_ went serves
    exact accounted.of_eq (accounted.counted.of_eq rfl rfl rfl) rfl rfl same
  | unmapped _ id at_ oneway found alive other =>
    have leaving : ⟨(s.results id).jobHandle, .leaving true⟩ ∈ s.threads := by
      simpa [accountable, at_, oneway, found, other] using fits
    have map := getD_map_erase s.jobMap (s.results id).jobHandle
    refine ⟨counted, ?_, ?_⟩
    · rw [map]
      exact (Finset.erase_subset _ _).trans accounted.mapped
    · rw [map]
      intro g there
      by_cases here : g = (s.results id).jobHandle
      · rw [here]
        exact Or.inr leaving
      · exact (accounted.left g there).imp_left fun inside => Finset.mem_erase.mpr ⟨here, inside⟩
  | acknowledged i _ _ h r _ found =>
    apply accounted.of_eq counted rfl rfl
    intro g leaving
    apply mem_set_of_mem found leaving
    simp
  | mapDown m mapped _ _ _ _ =>
    apply accounted.of_eq counted rfl ?_ same
    have given := getD_given_up m true
    simp only [true_and] at given
    rw [given, mapped, Option.getD_some]
  | _ => exact accounted.of_eq counted rfl rfl same

end Accounted

/-- No thread has entered a job, and no notification is under way. -/
def Quiet (s : State) : Prop :=
  (∀ thread ∈ s.threads, thread.phase = .queued ∨ thread.phase = .gone) ∧
    s.callbackMap.getD ∅ = ∅ ∧ s.idle = [] ∧ s.main = .idle ∧ s.acks = []

instance (s : State) : Decidable (Quiet s) := inferInstanceAs (Decidable (_ ∧ _ ∧ _ ∧ _ ∧ _))

theorem Accounted.initial : Accounted initial := ⟨⟨rfl, by simp [Async.initial]⟩, by simp [Async.initial],
  by simp [Async.initial]⟩

end GnomeVfs.Async
