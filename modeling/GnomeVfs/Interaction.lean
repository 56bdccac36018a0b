import Mathlib.Data.List.Basic

/- Programs that talk to an environment, one request at a time. The environment may give any
answer of the right type; a run is the list of requests with their answers. A monitor is a
state that watches the events go by, and `wp` is what has to hold of it before a program so
that the postconditions hold of it behind every run. -/
namespace Interaction

variable {Req : Type} {Resp : Req → Type} {Stop α β σ S E : Type}

structure Event (Resp : Req → Type) where
  request : Req
  response : Resp request

inductive Prog (Resp : Req → Type) (Stop α : Type) where
  | done (value : α)
  | stop (reason : Stop)
  | ask (request : Req) (next : Resp request → Prog Resp Stop α)

inductive Outcome (Stop α : Type) where
  | returned (value : α)
  | stopped (reason : Stop)
  deriving DecidableEq

def Outcome.Meets (Q : α → Prop) (H : Stop → Prop) : Outcome Stop α → Prop
  | .returned a => Q a
  | .stopped s => H s

instance {Q : α → Prop} {H : Stop → Prop} [DecidablePred Q] [DecidablePred H] :
    DecidablePred (Outcome.Meets Q H)
  | .returned a => inferInstanceAs (Decidable (Q a))
  | .stopped s => inferInstanceAs (Decidable (H s))

theorem Outcome.returned_of_meets {out : Outcome Stop (α × S)} {a : α}
    (meets : out.Meets (fun r => r.1 = a) fun _ => False) : ∃ s, out = .returned (a, s) := by
  cases out with
  | returned r => exact ⟨r.2, by rw [← meets]⟩
  | stopped s => exact meets.elim

def Prog.bind : Prog Resp Stop α → (α → Prog Resp Stop β) → Prog Resp Stop β
  | .done a, f => f a
  | .stop s, _ => .stop s
  | .ask r k, f => .ask r fun a => (k a).bind f

instance : Monad (Prog Resp Stop) where
  pure := .done
  bind := .bind

theorem Prog.lawful : LawfulMonad (Prog Resp Stop) := by
  refine LawfulMonad.mk' (Prog Resp Stop) ?_ (fun _ _ => rfl) ?_
  · intro α p
    induction p with
    | done a => rfl
    | stop s => rfl
    | ask r k ih => exact congrArg (Prog.ask r) (funext ih)
  · intro α β γ p f g
    induction p with
    | done a => rfl
    | stop s => rfl
    | ask r k ih => exact congrArg (Prog.ask r) (funext ih)

inductive Runs : Prog Resp Stop α → List (Event Resp) → Outcome Stop α → Prop where
  | done (a : α) : Runs (.done a) [] (.returned a)
  | stop (s : Stop) : Runs (.stop s) [] (.stopped s)
  | ask {r : Req} {k : Resp r → Prog Resp Stop α} (a : Resp r) {trace : List (Event Resp)}
      {out : Outcome Stop α} : Runs (k a) trace out → Runs (.ask r k) (⟨r, a⟩ :: trace) out

variable {p : Prog Resp Stop α} {f : α → Prog Resp Stop β} {back : List (Event Resp)}

theorem Runs.bind {a : α} {out : Outcome Stop β} (second : Runs (f a) back out) :
    ∀ {front : List (Event Resp)}, Runs p front (.returned a) → Runs (p.bind f) (front ++ back) out := by
  induction p with
  | done b => intro front first; cases first; exact second
  | stop s => intro front first; cases first
  | ask r k ih =>
    intro front first
    cases first with
    | ask b first => exact .ask b (ih b first)

/-- A run of a sequence is a run of its first part and one of its second. -/
theorem Runs.bind_cases :
    ∀ {trace : List (Event Resp)} {out : Outcome Stop β}, Runs (p.bind f) trace out →
      (∃ front back a, trace = front ++ back ∧ Runs p front (.returned a) ∧ Runs (f a) back out) ∨
        ∃ s, Runs p trace (.stopped s) ∧ out = .stopped s := by
  induction p with
  | done a => exact fun run => Or.inl ⟨[], _, a, rfl, .done a, run⟩
  | stop s =>
    intro trace out run
    cases run
    exact Or.inr ⟨s, .stop s, rfl⟩
  | ask r k ih =>
    intro trace out run
    cases run with
    | ask a run =>
      rcases ih a run with ⟨front, back, b, rfl, first, second⟩ | ⟨s, first, same⟩
      · exact Or.inl ⟨⟨r, a⟩ :: front, back, b, rfl, .ask a first, second⟩
      · exact Or.inr ⟨s, .ask a first, same⟩

/-- The answers fix the run: behind a run of its first part a sequence is at its second. -/
theorem Runs.bind_rest {a : α} :
    ∀ {front back : List (Event Resp)} {out : Outcome Stop β}, Runs (p.bind f) (front ++ back) out →
      Runs p front (.returned a) → Runs (f a) back out := by
  induction p with
  | done b =>
    intro front back out run first
    cases first
    exact run
  | stop s => intro front back out run first; cases first
  | ask r k ih =>
    intro front back out run first
    cases first with
    | ask b first =>
      cases run with
      | ask c run => exact ih _ run first

theorem Runs.front_unique {a b : α} :
    ∀ {front front' back back' : List (Event Resp)}, Runs p front (.returned a) → Runs p front' (.returned b) →
      front ++ back = front' ++ back' → front = front' ∧ a = b ∧ back = back' := by
  induction p with
  | done c =>
    intro front front' back back' first second same
    cases first
    cases second
    exact ⟨rfl, rfl, same⟩
  | stop s => intro front front' back back' first second same; cases first
  | ask r k ih =>
    intro front front' back back' first second same
    cases first with
    | ask c first =>
      cases second with
      | ask d second =>
        rw [List.cons_append, List.cons_append, List.cons.injEq, Event.mk.injEq] at same
        obtain ⟨⟨-, reply⟩, rest⟩ := same
        cases reply
        obtain ⟨rfl, rfl, rfl⟩ := ih c first second rest
        exact ⟨rfl, rfl, rfl⟩

variable {trace : List (Event Resp)}

section Monitor

variable (step : σ → Event Resp → σ)

def Prog.wp : Prog Resp Stop α → (α → σ → Prop) → (Stop → σ → Prop) → σ → Prop
  | .done a, Q, _, m => Q a m
  | .stop s, _, H, m => H s m
  | .ask r k, Q, H, m => ∀ a, (k a).wp Q H (step m ⟨r, a⟩)

theorem Prog.wp_mono {Q Q' : α → σ → Prop} {H H' : Stop → σ → Prop} (returned : ∀ a m, Q a m → Q' a m)
    (stopped : ∀ s m, H s m → H' s m) :
    ∀ {m : σ}, p.wp step Q H m → p.wp step Q' H' m := by
  induction p with
  | done a => exact fun holds => returned a _ holds
  | stop s => exact fun holds => stopped s _ holds
  | ask r k ih => exact fun holds a => ih a (holds a)

theorem Prog.wp_bind {Q : β → σ → Prop} {H : Stop → σ → Prop} {m : σ} :
    (p.bind f).wp step Q H m ↔ p.wp step (fun a m => (f a).wp step Q H m) H m := by
  induction p generalizing m with
  | done a => rfl
  | stop s => rfl
  | ask r k ih =>
    simp only [Prog.bind, Prog.wp]
    exact forall_congr' fun a => ih a

theorem Prog.wp_runs {Q : α → σ → Prop} {H : Stop → σ → Prop} {m : σ} {out : Outcome Stop α}
    (run : Runs p trace out) (holds : p.wp step Q H m) :
    out.Meets (Q · (trace.foldl step m)) (H · (trace.foldl step m)) := by
  induction run generalizing m with
  | done a => exact holds
  | stop s => exact holds
  | ask a run ih => exact ih (holds a)

end Monitor

/-- The monitor that remembers the whole run. -/
def record (trace : List (Event Resp)) (e : Event Resp) : List (Event Resp) := trace ++ [e]

theorem foldl_record (trace m : List (Event Resp)) : trace.foldl record m = m ++ trace := by
  induction trace generalizing m with
  | nil => simp
  | cons e trace ih =>
    rw [List.foldl_cons, ih]
    simp [record]

theorem Prog.wp_record (p : Prog Resp Stop α) (m : List (Event Resp)) :
    p.wp record (fun _ m' => m <+: m') (fun _ _ => True) m := by
  induction p generalizing m with
  | done a => exact List.prefix_rfl
  | stop s => trivial
  | ask r k ih =>
    intro a
    exact Prog.wp_mono record (fun _ _ longer => (List.prefix_append m _).trans longer)
      (fun _ _ => id) (ih a _)

/-- Programs with a state of their own. -/
abbrev Action (Resp : Req → Type) (Stop S : Type) := StateT S (Prog Resp Stop)

variable {x y : Action Resp Stop S α} {c : Prop}

namespace Action

def ask (r : Req) : Action Resp Stop S (Resp r) := fun s => .ask r fun a => .done (a, s)

def halt (reason : Stop) : Action Resp Stop S α := fun _ => .stop reason

variable (step : σ → Event Resp → σ)

def wp (x : Action Resp Stop S α) (s : S) (Q : α → S → σ → Prop) (H : Stop → σ → Prop) (m : σ) : Prop :=
  (x s).wp step (fun r m => Q r.1 r.2 m) H m

variable {step} {Q : α → S → σ → Prop} {H : Stop → σ → Prop} {s : S} {m : σ}

theorem wp_mono {Q' : α → S → σ → Prop} {H' : Stop → σ → Prop} (holds : wp step x s Q H m)
    (returned : ∀ a s m, Q a s m → Q' a s m) (stopped : ∀ r m, H r m → H' r m) : wp step x s Q' H' m := by
  unfold wp at holds ⊢
  exact Prog.wp_mono step (fun (r : α × S) m => returned r.1 r.2 m) stopped holds

@[simp] theorem wp_pure {a : α} : wp step (pure a : Action Resp Stop S α) s Q H m ↔ Q a s m := Iff.rfl

@[simp] theorem wp_bind {x : Action Resp Stop S β} {f : β → Action Resp Stop S α} :
    wp step (x >>= f) s Q H m ↔ wp step x s (fun b s m => wp step (f b) s Q H m) H m :=
  Prog.wp_bind step

@[simp] theorem wp_get {Q : S → S → σ → Prop} :
    wp step (get : Action Resp Stop S S) s Q H m ↔ Q s s m := Iff.rfl

@[simp] theorem wp_ite [Decidable c] :
    wp step (if c then x else y) s Q H m ↔
      (c → wp step x s Q H m) ∧ (¬ c → wp step y s Q H m) := by
  by_cases here : c <;> simp [here]

end Action

variable {front : List (Event Resp)}

theorem Action.runs_bind {f : α → Action Resp Stop S β} {s s' : S} {a : α} {out : Outcome Stop (β × S)}
    (first : Runs (x s) front (.returned (a, s'))) (second : Runs (f a s') back out) :
    Runs ((x >>= f) s) (front ++ back) out :=
  Runs.bind (f := fun r : α × S => f r.1 r.2) second first

theorem Action.runs_bind_rest {f : α → Action Resp Stop S β} {s s' : S} {a : α} {out : Outcome Stop (β × S)}
    (run : Runs ((x >>= f) s) (front ++ back) out) (first : Runs (x s) front (.returned (a, s'))) :
    Runs (f a s') back out :=
  Runs.bind_rest (f := fun r : α × S => f r.1 r.2) run first

theorem Action.wp_record {s : S} {m : List (Event Resp)} :
    Action.wp record x s (fun _ _ m' => m <+: m') (fun _ _ => True) m :=
  Prog.wp_record (x s) m

/-- What holds of every run can be used as a rule. -/
theorem Prog.wp_of_runs {Q : α → List (Event Resp) → Prop} {H : Stop → List (Event Resp) → Prop} :
    ∀ {m : List (Event Resp)}, (∀ trace out, Runs p trace out → out.Meets (Q · (m ++ trace)) (H · (m ++ trace))) →
      p.wp record Q H m := by
  induction p with
  | done a =>
    intro m holds
    simpa [Outcome.Meets, Prog.wp] using holds [] _ (.done a)
  | stop s =>
    intro m holds
    simpa [Outcome.Meets, Prog.wp] using holds [] _ (.stop s)
  | ask r k ih =>
    intro m holds a
    apply ih a
    intro trace out run
    simpa [record] using holds _ out (.ask a run)

/-- The record shows the run of the program itself. -/
theorem Action.wp_runs {s : S} {m : List (Event Resp)} :
    Action.wp record x s (fun a s' m' => ∃ trace, m' = m ++ trace ∧ Runs (x s) trace (.returned (a, s')))
      (fun _ _ => True) m := by
  unfold Action.wp
  apply Prog.wp_of_runs
  intro trace out run
  cases out with
  | returned r => exact ⟨trace, rfl, run⟩
  | stopped reason => trivial

/-- What a longer record cannot undo is still there behind a run. -/
theorem Action.wp_record_keeps {s : S} {m : List (Event Resp)} {P : List (Event Resp) → Prop}
    (kept : ∀ m e, P m → P (m ++ [e])) (holds : P m) :
    Action.wp record x s (fun _ _ m => P m) (fun _ m => P m) m := by
  unfold Action.wp
  induction x s generalizing m with
  | done a => exact holds
  | stop reason => exact holds
  | ask r k ih => exact fun a => ih a (kept m _ holds)

theorem Action.wp_trace {s s' : S} {a : α} {Q : α → S → List (Event Resp) → Prop}
    {H : Stop → List (Event Resp) → Prop} (run : Runs (x s) trace (.returned (a, s')))
    (holds : Action.wp record x s Q H []) : Q a s' trace := by
  have seen := Prog.wp_runs record run holds
  rwa [foldl_record] at seen

/-- How the body of a loop ends: with another round, or for good. -/
inductive Step (σ α : Type) where
  | again (value : σ)
  | finish (value : α)

def Step.map {σ' : Type} (f : σ → σ') (g : α → β) : Step σ α → Step σ' β
  | .again x => .again (f x)
  | .finish a => .finish (g a)

variable {outOfFuel : Stop} {X A : Type} {fuel : Nat} {body : X → Action Resp Stop S (Step X α)}

namespace Action

/-- `for (;;)` over the loop variables `X`, as far as the fuel goes. -/
def loop {X : Type} (outOfFuel : Stop) (body : X → Action Resp Stop S (Step X α)) :
    Nat → X → Action Resp Stop S α
  | 0, _ => halt outOfFuel
  | fuel + 1, x => do
    match ← body x with
    | .again y => loop outOfFuel body fuel y
    | .finish a => pure a

/-- A walk along a list that `finish` breaks off. -/
def each {A X : Type} (body : A → X → Action Resp Stop S (Step X X)) : List A → X → Action Resp Stop S X
  | [], x => pure x
  | a :: rest, x => do
    match ← body a x with
    | .again y => each body rest y
    | .finish y => pure y

theorem map_loop {Y : Type} (f : X → Y) (g : α → β) {body' : Y → Action Resp Stop S (Step Y β)}
    (same : ∀ x, Step.map f g <$> body x = body' (f x)) :
    ∀ (fuel : Nat) (x : X), g <$> loop outOfFuel body fuel x = loop outOfFuel body' fuel (f x)
  | 0, _ => rfl
  | fuel + 1, x => by
    have := @Prog.lawful Req Resp Stop
    rw [loop, loop, ← same x, map_bind, bind_map_left]
    congr 1
    funext r
    cases r with
    | again y => exact map_loop f g same fuel y
    | finish a => exact map_pure g a

theorem runs_again {x y : X} {s s' : S} {out : Outcome Stop (α × S)}
    (round : Runs (body x s) front (.returned (.again y, s')))
    (rest : Runs (loop outOfFuel body fuel y s') back out) :
    Runs (loop outOfFuel body (fuel + 1) x s) (front ++ back) out := by
  rw [loop]
  exact runs_bind round rest

theorem runs_finish {x : X} {s s' : S} {a : α} (round : Runs (body x s) trace (.returned (.finish a, s'))) :
    Runs (loop outOfFuel body (fuel + 1) x s) trace (.returned (a, s')) := by
  have run : Runs (loop outOfFuel body (fuel + 1) x s) (trace ++ []) (.returned (a, s')) := by
    rw [loop]
    exact runs_bind round (.done _)
  rwa [List.append_nil] at run

variable {step : σ → Event Resp → σ} {Q : α → S → σ → Prop} {H : Stop → σ → Prop} {s : S} {m : σ}

theorem wp_loop {X : Type} {outOfFuel : Stop} {body : X → Action Resp Stop S (Step X α)}
    (Inv : X → S → σ → Prop)
    (round : ∀ x s m, Inv x s m → wp step (body x) s (fun r s m =>
      match r with
      | .again y => Inv y s m
      | .finish a => Q a s m) H m)
    (dry : ∀ x s m, Inv x s m → H outOfFuel m):
    ∀ (fuel : Nat) (x : X) {s : S} {m : σ}, Inv x s m →
      wp step (loop outOfFuel body fuel x) s Q H m
  | 0, x, _, _, inv => dry x _ _ inv
  | fuel + 1, x, s, m, inv => by
    rw [loop, wp_bind]
    refine wp_mono (round x s m inv) ?_ fun _ _ => id
    intro r s m holds
    cases r with
    | again y => exact wp_loop Inv round dry fuel y holds
    | finish a => exact holds

theorem wp_each {body : A → X → Action Resp Stop S (Step X X)} {Q : X → S → σ → Prop}
    (Inv : List A → X → S → σ → Prop)
    (round : ∀ a rest x s m, Inv (a :: rest) x s m → wp step (body a x) s (fun r s m =>
      match r with
      | .again y => Inv rest y s m
      | .finish y => Q y s m) H m)
    (done : ∀ x s m, Inv [] x s m → Q x s m):
    ∀ (items : List A) (x : X) {s : S} {m : σ}, Inv items x s m → wp step (each body items x) s Q H m
  | [], x, _, _, inv => done x _ _ inv
  | a :: rest, x, s, m, inv => by
    rw [each, wp_bind]
    refine wp_mono (round a rest x s m inv) ?_ fun _ _ => id
    intro r s m holds
    cases r with
    | again y => exact wp_each Inv round done rest y holds
    | finish y => exact holds

section Keeps

variable (step : σ → Event Resp → σ) (I : S → σ → Prop)

/-- The program keeps the invariant, also where it stops. -/
def Keeps (x : Action Resp Stop S α) : Prop :=
  ∀ s m, I s m → wp step x s (fun _ s m => I s m) (fun _ m => ∃ s, I s m) m

variable {step I}

theorem keeps_pure (a : α) : Keeps step I (pure a : Action Resp Stop S α) := fun _ _ => id

theorem keeps_halt (reason : Stop) : Keeps step I (halt reason : Action Resp Stop S α) :=
  fun s _ inv => ⟨s, inv⟩

theorem Keeps.bind {f : α → Action Resp Stop S β} (first : Keeps step I x) (second : ∀ a, Keeps step I (f a)) :
    Keeps step I (x >>= f) :=
  fun s m inv => wp_bind.mpr (wp_mono (first s m inv) (fun a s m => second a s m) fun _ _ => id)

theorem Keeps.get {f : S → Action Resp Stop S α} (next : ∀ s, Keeps step I (f s)) :
    Keeps step I (get >>= f) := fun s m inv => next s s m inv

theorem Keeps.ite [Decidable c] (yes : Keeps step I x) (no : Keeps step I y) : Keeps step I (if c then x else y) := by
  split
  · exact yes
  · exact no

theorem Keeps.loop (round : ∀ x, Keeps step I (body x)) (fuel : Nat) (x : X) :
    Keeps step I (loop outOfFuel body fuel x) := by
  intro s m inv
  refine wp_loop (fun _ => I) (fun x s m inv => ?_) (fun _ s m inv => ⟨s, inv⟩) fuel x inv
  refine wp_mono (round x s m inv) (fun r s m inv => ?_) fun _ _ => id
  cases r <;> exact inv

theorem Keeps.each {body : A → X → Action Resp Stop S (Step X X)} {items : List A}
    (round : ∀ a ∈ items, ∀ x, Keeps step I (body a x)) (x : X) : Keeps step I (each body items x) := by
  intro s m inv
  refine wp_each (fun rest _ s m => rest ⊆ items ∧ I s m) (fun a rest x s m inv => ?_)
    (fun _ _ _ inv => inv.2) items x ⟨List.Subset.refl _, inv⟩
  obtain ⟨member, left⟩ := List.cons_subset.mp inv.1
  refine wp_mono (round a member x s m inv.2) (fun r s m inv => ?_) fun _ _ => id
  cases r with
  | again y => exact ⟨left, inv⟩
  | finish y => exact inv

end Keeps

section Shows

variable (allowed : Event Resp → Prop)

/-- A run in which all events are allowed, and that returns, ends in the postcondition. That
speaks of the value and of the events of the run. -/
structure Shows (x : Action Resp Stop S α) (Q : α → List (Event Resp) → Prop) : Prop where
  holds : ∀ {s s' : S} {a : α} {trace : List (Event Resp)}, Runs (x s) trace (.returned (a, s')) →
    (∀ e ∈ trace, allowed e) → Q a trace

variable {allowed}

theorem Shows.mono {Q Q' : α → List (Event Resp) → Prop} (shows : Shows allowed x Q)
    (weaker : ∀ a trace, Q a trace → Q' a trace) : Shows allowed x Q' :=
  ⟨fun run calm => weaker _ _ (shows.holds run calm)⟩

theorem shows_any : Shows allowed x (fun _ _ => True) := ⟨fun _ _ => trivial⟩

theorem shows_pure {a : α} {Q : α → List (Event Resp) → Prop} (holds : Q a []) :
    Shows allowed (pure a : Action Resp Stop S α) Q := by
  constructor
  intro s s' b trace run _
  cases run
  exact holds

theorem shows_halt {reason : Stop} {Q : α → List (Event Resp) → Prop} :
    Shows allowed (halt reason : Action Resp Stop S α) Q := by
  constructor
  intro s s' b trace run _
  cases run

theorem shows_ask {r : Req} {Q : Resp r → List (Event Resp) → Prop} (holds : ∀ a, allowed ⟨r, a⟩ → Q a [⟨r, a⟩]) :
    Shows allowed (ask r : Action Resp Stop S (Resp r)) Q := by
  constructor
  intro s s' b trace run calm
  cases run with
  | ask a run =>
    cases run
    exact holds b (calm _ (by simp))

theorem Shows.bind {f : α → Action Resp Stop S β} {P : α → List (Event Resp) → Prop}
    {Q : β → List (Event Resp) → Prop} (first : Shows allowed x P)
    (second : ∀ a front, P a front → Shows allowed (f a) (fun b back => Q b (front ++ back))) :
    Shows allowed (x >>= f) Q := by
  constructor
  intro s s' b trace run calm
  rcases Runs.bind_cases (f := fun r : α × S => f r.1 r.2) run with
    ⟨front, back, ⟨a, middle⟩, rfl, here, there⟩ | ⟨reason, _, stopped⟩
  · have seen := first.holds here fun e member => calm e (List.mem_append_left _ member)
    exact (second a front seen).holds there fun e member => calm e (List.mem_append_right _ member)
  · cases stopped

theorem Shows.get {f : S → Action Resp Stop S α} {Q : α → List (Event Resp) → Prop}
    (next : ∀ s, Shows allowed (f s) Q) : Shows allowed (get >>= f) Q :=
  ⟨fun {s} _ _ _ run calm => (next s).holds run calm⟩

theorem Shows.ite [Decidable c] {Q : α → List (Event Resp) → Prop} (yes : c → Shows allowed x Q)
    (no : ¬ c → Shows allowed y Q) : Shows allowed (if c then x else y) Q := by
  split
  · exact yes ‹c›
  · exact no ‹¬ c›

/-- How a round ends that starts behind the events `acc`. -/
def Round {X : Type} (Inv : X → List (Event Resp) → Prop) (Q : α → List (Event Resp) → Prop)
    (acc : List (Event Resp)) : Step X α → List (Event Resp) → Prop
  | .again y, trace => Inv y (acc ++ trace)
  | .finish a, trace => Q a (acc ++ trace)

theorem Shows.loop_from {Q : α → List (Event Resp) → Prop} (Inv : X → List (Event Resp) → Prop)
    (round : ∀ x acc, Inv x acc → Shows allowed (body x) (Round Inv Q acc)) (fuel : Nat) :
    ∀ (x : X) (acc : List (Event Resp)), Inv x acc →
      Shows allowed (loop outOfFuel body fuel x) (fun a trace => Q a (acc ++ trace)) := by
  induction fuel with
  | zero => exact fun _ _ _ => shows_halt
  | succ fuel ih =>
    intro x acc inv
    rw [Action.loop]
    apply Shows.bind (round x acc inv)
    rintro (y | a) front holds
    · simp only [← List.append_assoc]
      exact ih y (acc ++ front) holds
    · apply shows_pure
      rw [List.append_nil]
      exact holds

theorem Shows.loop {Q : α → List (Event Resp) → Prop} (Inv : X → List (Event Resp) → Prop)
    (round : ∀ x acc, Inv x acc → Shows allowed (body x) (Round Inv Q acc)) (fuel : Nat) (x : X) (start : Inv x []) :
    Shows allowed (Action.loop outOfFuel body fuel x) Q :=
  Shows.loop_from Inv round fuel x [] start

theorem Shows.each_from {body : A → X → Action Resp Stop S (Step X X)} (Inv : X → List (Event Resp) → Prop)
    (round : ∀ a x acc, Inv x acc → Shows allowed (body a x) (Round Inv Inv acc)) (items : List A) :
    ∀ (x : X) (acc : List (Event Resp)), Inv x acc →
      Shows allowed (each body items x) (fun y trace => Inv y (acc ++ trace)) := by
  induction items with
  | nil =>
    intro x acc inv
    apply shows_pure
    rw [List.append_nil]
    exact inv
  | cons a rest ih =>
    intro x acc inv
    rw [Action.each]
    apply Shows.bind (round a x acc inv)
    rintro (y | y) front holds
    · simp only [← List.append_assoc]
      exact ih y (acc ++ front) holds
    · apply shows_pure
      rw [List.append_nil]
      exact holds

theorem Shows.each {body : A → X → Action Resp Stop S (Step X X)} (Inv : X → List (Event Resp) → Prop)
    (round : ∀ a x acc, Inv x acc → Shows allowed (body a x) (Round Inv Inv acc)) (items : List A) (x : X)
    (start : Inv x []) : Shows allowed (Action.each body items x) Inv :=
  Shows.each_from Inv round items x [] start

theorem Shows.and_allowed {Q : α → List (Event Resp) → Prop} (shows : Shows allowed x Q) :
    Shows allowed x (fun a trace => Q a trace ∧ ∀ e ∈ trace, allowed e) :=
  ⟨fun run calm => ⟨shows.holds run calm, calm⟩⟩

theorem shows_of_record {Q : α → List (Event Resp) → Prop}
    (holds : ∀ s, wp record x s (fun a _ m => Q a m) (fun _ _ => True) []) : Shows allowed x Q :=
  ⟨fun run _ => Action.wp_trace run (holds _)⟩

theorem Shows.wp {Q : α → List (Event Resp) → Prop} (shows : Shows (fun _ => True) x Q) {s : S}
    {m : List (Event Resp)} :
    wp record x s (fun a _ m' => ∃ trace, m' = m ++ trace ∧ Q a trace) (fun _ _ => True) m := by
  unfold Action.wp
  apply Prog.wp_of_runs
  intro trace out run
  cases out with
  | returned r => exact ⟨trace, rfl, shows.holds run fun _ _ => trivial⟩
  | stopped reason => trivial

theorem Shows.conditional {Q : α → List (Event Resp) → Prop} (shows : Shows allowed x Q) :
    Shows (fun _ => True) x (fun a trace => (∀ e ∈ trace, allowed e) → Q a trace) :=
  ⟨fun run _ => shows.holds run⟩

theorem shows_runs :
    Shows allowed x (fun a trace => ∃ s s', Runs (x s) trace (.returned (a, s'))) :=
  ⟨fun run _ => ⟨_, _, run⟩⟩

theorem Shows.and {P Q : α → List (Event Resp) → Prop} (first : Shows allowed x P) (second : Shows allowed x Q) :
    Shows allowed x (fun a trace => P a trace ∧ Q a trace) :=
  ⟨fun run calm => ⟨first.holds run calm, second.holds run calm⟩⟩

end Shows

section Makes

variable (P : Event Resp → Prop)

/-- All events of the run are of this kind. -/
abbrev Makes (x : Action Resp Stop S α) : Prop := Keeps record (fun _ m => ∀ e ∈ m, P e) x

variable {P}

theorem record_all {m : List (Event Resp)} {e : Event Resp} (made : ∀ e ∈ m, P e) (known : P e) :
    ∀ x ∈ record m e, P x := by
  unfold record
  exact List.forall_mem_append.mpr ⟨made, List.forall_mem_singleton.mpr known⟩

theorem makes_ask {r : Req} (known : ∀ a, P ⟨r, a⟩) : Makes P (ask r : Action Resp Stop S (Resp r)) := by
  intro s m made a
  exact record_all made (known a)

theorem Makes.holds {s s' : S} {a : α} (makes : Makes P x) (run : Runs (x s) trace (.returned (a, s'))) :
    ∀ e ∈ trace, P e :=
  Action.wp_trace run (makes s [] (List.forall_mem_nil _))

theorem Shows.and_makes {allowed : Event Resp → Prop} {Q : α → List (Event Resp) → Prop}
    (shows : Shows allowed x Q) (makes : Makes P x) : Shows allowed x (fun a trace => Q a trace ∧ ∀ e ∈ trace, P e) :=
  ⟨fun run calm => ⟨shows.holds run calm, Makes.holds makes run⟩⟩

end Makes

/-- The walk has gone through these items and is to go on. -/
inductive Walked {A X : Type} (body : A → X → Action Resp Stop S (Step X X)) :
    List A → X → S → List (Event Resp) → X → S → Prop where
  | nil (x : X) (s : S) : Walked body [] x s [] x s
  | cons {a : A} {rest : List A} {x y z : X} {s s' s'' : S} {front back : List (Event Resp)} :
      Runs (body a x s) front (.returned (.again y, s')) → Walked body rest y s' back z s'' →
      Walked body (a :: rest) x s (front ++ back) z s''

theorem each_cons {body : A → X → Action Resp Stop S (Step X X)} {a : A} {rest : List A} {x : X} {s s' : S}
    {r : Step X X} {out : Outcome Stop (X × S)} (run : Runs (each body (a :: rest) x s) (front ++ back) out)
    (first : Runs (body a x s) front (.returned (r, s'))) :
    match r with
    | .again y => Runs (each body rest y s') back out
    | .finish y => back = [] ∧ out = .returned (y, s') := by
  have next := Runs.bind_rest run first
  cases r with
  | again y => exact next
  | finish y =>
    cases next
    exact ⟨rfl, rfl⟩

theorem each_walked {body : A → X → Action Resp Stop S (Step X X)} {before after : List A} {x y : X} {s s' : S}
    {out : Outcome Stop (X × S)} (walked : Walked body before x s front y s') :
    Runs (each body (before ++ after) x s) (front ++ back) out → Runs (each body after y s') back out := by
  induction walked with
  | nil x s => exact id
  | cons first walked ih =>
    intro run
    rw [List.append_assoc] at run
    exact ih (each_cons run first)

end Action

section Execute

variable (answer : E → (r : Req) → Resp r × E)

/-- The run against one environment. -/
def Prog.exec : Prog Resp Stop α → E → List (Event Resp) × Outcome Stop α
  | .done a, _ => ([], .returned a)
  | .stop s, _ => ([], .stopped s)
  | .ask r k, e =>
    let rest := (k (answer e r).1).exec (answer e r).2
    (⟨r, (answer e r).1⟩ :: rest.1, rest.2)

theorem Prog.exec_runs (p : Prog Resp Stop α) (e : E) :
    Runs p (p.exec answer e).1 (p.exec answer e).2 := by
  induction p generalizing e with
  | done a => exact .done a
  | stop s => exact .stop s
  | ask r k ih => exact .ask _ (ih _ _)

/-- How the program ends against one environment, and where that leaves the environment. -/
def Prog.play : Prog Resp Stop α → E → Outcome Stop α × E
  | .done a, e => (.returned a, e)
  | .stop s, e => (.stopped s, e)
  | .ask r k, e => (k (answer e r).1).play (answer e r).2

variable {answer}

theorem Prog.play_bind {a : α} {e e' : E} (first : p.play answer e = (.returned a, e')) :
    (p.bind f).play answer e = (f a).play answer e' := by
  induction p generalizing e with
  | done b =>
    cases first
    rfl
  | stop s => cases first
  | ask r k ih => exact ih _ first

variable (answer)

/-- The action returns this value, in these states, against the environment. -/
def Action.Plays (x : Action Resp Stop S α) (s : S) (e : E) (a : α) (s' : S) (e' : E) : Prop :=
  (x s).play answer e = (.returned (a, s'), e')

variable {answer} {s s' s'' : S} {e e' e'' : E} {a : α} {b : β}

theorem Action.Plays.bind {f : α → Action Resp Stop S β} (first : Plays answer x s e a s' e')
    (second : Plays answer (f a) s' e' b s'' e'') : Plays answer (x >>= f) s e b s'' e'' :=
  (Prog.play_bind (f := fun r : α × S => f r.1 r.2) first).trans second

theorem Action.plays_pure : Plays answer (pure a : Action Resp Stop S α) s e a s e := rfl

theorem Action.plays_get : Plays answer (get : Action Resp Stop S S) s e s s e := rfl

theorem Action.plays_modify {f : S → S} : Plays answer (modify f : Action Resp Stop S PUnit) s e ⟨⟩ (f s) e := rfl

theorem Action.plays_ask {r : Req} :
    Plays answer (ask r : Action Resp Stop S (Resp r)) s e (answer e r).1 s (answer e r).2 := rfl

theorem Action.Plays.finish {X : Type} {outOfFuel : Stop} {body : X → Action Resp Stop S (Step X α)} {fuel : Nat}
    {x : X} (round : Plays answer (body x) s e (.finish a) s' e') :
    Plays answer (loop outOfFuel body (fuel + 1) x) s e a s' e' := by
  rw [loop]
  exact round.bind plays_pure

end Execute

end Interaction
