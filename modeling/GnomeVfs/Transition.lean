import Mathlib.Data.List.Basic

/- Systems whose events are partial functions on their states: an event that gives no state
cannot happen there. -/
namespace Transition

variable {S E : Type} {step : S → E → Option S} {allowed : S → E → Prop}

/-- A run between two states, where each event is allowed in the state it happens in. -/
inductive Run (step : S → E → Option S) (allowed : S → E → Prop) (start : S) : S → Prop where
  | refl : Run step allowed start start
  | next {s t : S} (e : E) : Run step allowed start s → allowed s e → step s e = some t →
      Run step allowed start t

theorem Run.keeps {P : S → Prop} {start stop : S} (run : Run step allowed start stop)
    (holds : P start)
    (kept : ∀ (s : S) (e : E) (t : S), P s → allowed s e → step s e = some t → P t) :
    P stop := by
  induction run with
  | refl => exact holds
  | next e _ fits stepped ih => exact kept _ e _ ih fits stepped

theorem Run.trans {start middle stop : S} (first : Run step allowed start middle)
    (second : Run step allowed middle stop) : Run step allowed start stop := by
  induction second with
  | refl => exact first
  | next e _ fits stepped ih => exact .next e ih fits stepped

/-- The step function that refuses what is not allowed. -/
def guarded (step : S → E → Option S) (allowed : S → E → Prop) [∀ s e, Decidable (allowed s e)]
    (s : S) (e : E) : Option S :=
  if allowed s e then step s e else none

theorem Run.of_foldlM [∀ s e, Decidable (allowed s e)] (events : List E) : ∀ {start stop : S},
    events.foldlM (guarded step allowed) start = some stop → Run step allowed start stop := by
  induction events with
  | nil =>
    intro start stop followed
    cases followed
    exact .refl
  | cons e rest ih =>
    intro start stop followed
    rw [List.foldlM_cons] at followed
    obtain ⟨next, first, later⟩ := Option.bind_eq_some_iff.mp followed
    rw [guarded] at first
    split at first
    · rename_i fits
      exact (Run.next e .refl fits first).trans (ih later)
    · cases first

theorem foldlM_keeps {P : S → Prop} {events : List E} {start stop : S} (followed : events.foldlM step start = some stop)
    (holds : P start) (kept : ∀ (s : S) (e : E) (t : S), e ∈ events → P s → step s e = some t → P t) : P stop := by
  induction events generalizing start with
  | nil =>
    cases followed
    exact holds
  | cons e rest ih =>
    rw [List.foldlM_cons] at followed
    obtain ⟨next, first, later⟩ := Option.bind_eq_some_iff.mp followed
    exact ih later (kept _ _ _ List.mem_cons_self holds first)
      fun s e t among => kept s e t (List.mem_cons_of_mem _ among)

end Transition
