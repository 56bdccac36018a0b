import GnomeVfs.Interaction
import GnomeVfs.Transition

/- Programs in an environment that has a state of its own. `Env` says which answers it can give to
a request, and in which state that leaves it; `demand` is what a request needs of the state it is
made in. -/
namespace Interaction

open Transition

variable {Req : Type} {Resp : Req → Type} {Stop α β S W C : Type}

variable {p : Prog Resp Stop α}

section Safe

variable (Env : W → (r : Req) → Resp r → W → Prop) (demand : W → Req → Prop)

/-- Whatever the environment answers, each request is made where its demand is met, and the
postconditions hold at the end. -/
def Prog.safe : Prog Resp Stop α → (α → W → Prop) → (Stop → W → Prop) → W → Prop
  | .done a, Q, _, w => Q a w
  | .stop s, _, H, w => H s w
  | .ask r k, Q, H, w => demand w r ∧ ∀ a w', Env w r a w' → (k a).safe Q H w'

variable {Env demand}

theorem Prog.safe_mono {Q Q' : α → W → Prop} {H H' : Stop → W → Prop} (returned : ∀ a w, Q a w → Q' a w)
    (stopped : ∀ s w, H s w → H' s w) :
    ∀ {w : W}, p.safe Env demand Q H w → p.safe Env demand Q' H' w := by
  induction p with
  | done a => exact fun holds => returned a _ holds
  | stop s => exact fun holds => stopped s _ holds
  | ask r k ih => exact fun holds => ⟨holds.1, fun a w' given => ih a (holds.2 a w' given)⟩

theorem Prog.safe_bind {f : α → Prog Resp Stop β} {Q : β → W → Prop} {H : Stop → W → Prop} {w : W} :
    (p.bind f).safe Env demand Q H w ↔ p.safe Env demand (fun a w => (f a).safe Env demand Q H w) H w := by
  induction p generalizing w with
  | done a => rfl
  | stop s => rfl
  | ask r k ih =>
    simp only [Prog.bind, Prog.safe]
    exact and_congr_right fun _ => forall_congr' fun a => forall_congr' fun w' => imp_congr_right fun _ => ih a

/-- Postconditions that hold anyway. -/
theorem Prog.safe_always {Q : α → W → Prop} {H : Stop → W → Prop} (asked : ∀ w r, demand w r)
    (returned : ∀ a w, Q a w) (stopped : ∀ s w, H s w) (p : Prog Resp Stop α) (w : W) : p.safe Env demand Q H w := by
  induction p generalizing w with
  | done a => exact returned a w
  | stop s => exact stopped s w
  | ask r k ih => exact ⟨asked w r, fun a w' _ => ih a w'⟩

end Safe

section Asked

variable [∀ r, Nonempty (Resp r)]

theorem Prog.exists_runs (p : Prog Resp Stop α) : ∃ trace out, Runs p trace out := by
  induction p with
  | done a => exact ⟨[], _, .done a⟩
  | stop s => exact ⟨[], _, .stop s⟩
  | ask r k ih =>
    obtain ⟨a⟩ := (inferInstance : Nonempty (Resp r))
    obtain ⟨trace, out, run⟩ := ih a
    exact ⟨_, out, .ask a run⟩

/-- What is asked in any run, where the environment may give any answer. -/
theorem Prog.safe_iff_runs {D : Req → Prop} :
    p.safe (fun (_ : Unit) _ _ _ => True) (fun _ => D) (fun _ _ => True) (fun _ _ => True) () ↔
      ∀ trace out, Runs p trace out → ∀ e ∈ trace, D e.request := by
  induction p with
  | done a =>
    refine ⟨fun _ trace out run e member => ?_, fun _ => trivial⟩
    cases run
    cases member
  | stop s =>
    refine ⟨fun _ trace out run e member => ?_, fun _ => trivial⟩
    cases run
    cases member
  | ask r k ih =>
    constructor
    · intro holds trace out run e member
      cases run with
      | ask a run =>
        rcases List.mem_cons.mp member with rfl | later
        · exact holds.1
        · exact (ih a).mp (holds.2 a () trivial) _ _ run e later
    · intro asked
      constructor
      · obtain ⟨trace, out, run⟩ := (Prog.ask r k).exists_runs
        cases run with
        | ask a run => exact asked _ _ (.ask a run) _ List.mem_cons_self
      · intro a _ _
        apply (ih a).mpr
        intro trace out run e member
        exact asked _ _ (.ask a run) e (List.mem_cons_of_mem _ member)

end Asked

variable {f : β → Action Resp Stop S α} {c : Prop} {X : Type} {outOfFuel : Stop}
  {body : X → Action Resp Stop S (Step X α)}

namespace Action

variable (Env : W → (r : Req) → Resp r → W → Prop) (demand : W → Req → Prop)

def safe (x : Action Resp Stop S α) (s : S) (Q : α → S → W → Prop) (H : Stop → W → Prop) (w : W) : Prop :=
  (x s).safe Env demand (fun r w => Q r.1 r.2 w) H w

variable {Env demand} {Q : α → S → W → Prop} {H : Stop → W → Prop} {s : S} {w : W}

theorem safe_mono {x : Action Resp Stop S α} {Q' : α → S → W → Prop} {H' : Stop → W → Prop}
    (holds : safe Env demand x s Q H w) (returned : ∀ a s w, Q a s w → Q' a s w) (stopped : ∀ r w, H r w → H' r w) :
    safe Env demand x s Q' H' w := by
  unfold safe at holds ⊢
  exact Prog.safe_mono (fun (r : α × S) w => returned r.1 r.2 w) stopped holds

theorem safe_always {x : Action Resp Stop S α} (asked : ∀ w r, demand w r) (returned : ∀ a s w, Q a s w)
    (stopped : ∀ r w, H r w) : safe Env demand x s Q H w := by
  unfold safe
  exact Prog.safe_always asked (fun (r : α × S) w => returned r.1 r.2 w) stopped (x s) w

@[simp] theorem safe_pure {a : α} : safe Env demand (pure a : Action Resp Stop S α) s Q H w ↔ Q a s w := Iff.rfl

@[simp] theorem safe_bind {x : Action Resp Stop S β} :
    safe Env demand (x >>= f) s Q H w ↔
      safe Env demand x s (fun b s w => safe Env demand (f b) s Q H w) H w :=
  Prog.safe_bind

@[simp] theorem safe_ask {r : Req} {Q : Resp r → S → W → Prop} :
    safe Env demand (ask r : Action Resp Stop S (Resp r)) s Q H w ↔
      demand w r ∧ ∀ a w', Env w r a w' → Q a s w' := Iff.rfl

@[simp] theorem safe_get {Q : S → S → W → Prop} :
    safe Env demand (get : Action Resp Stop S S) s Q H w ↔ Q s s w := Iff.rfl

@[simp] theorem safe_modify {f : S → S} {Q : PUnit → S → W → Prop} :
    safe Env demand (modify f : Action Resp Stop S PUnit) s Q H w ↔ Q ⟨⟩ (f s) w := Iff.rfl

@[simp] theorem safe_modifyGet {f : S → α × S} :
    safe Env demand (modifyGet f : Action Resp Stop S α) s Q H w ↔ Q (f s).1 (f s).2 w := Iff.rfl

@[simp] theorem safe_ite [Decidable c] {x y : Action Resp Stop S α} :
    safe Env demand (if c then x else y) s Q H w ↔
      (c → safe Env demand x s Q H w) ∧ (¬ c → safe Env demand y s Q H w) := by
  by_cases here : c <;> simp [here]

theorem safe_loop
    (Inv : Nat → X → S → W → Prop)
    (round : ∀ fuel x s w, Inv (fuel + 1) x s w → safe Env demand (body x) s (fun r s w =>
      match r with
      | .again y => Inv fuel y s w
      | .finish a => Q a s w) H w)
    (dry : ∀ x s w, Inv 0 x s w → H outOfFuel w):
    ∀ (fuel : Nat) (x : X) {s : S} {w : W}, Inv fuel x s w →
      safe Env demand (loop outOfFuel body fuel x) s Q H w
  | 0, x, _, _, inv => dry x _ _ inv
  | fuel + 1, x, s, w, inv => by
    rw [loop, safe_bind]
    refine safe_mono (round fuel x s w inv) ?_ fun _ _ => id
    intro r s w holds
    cases r with
    | again y => exact safe_loop Inv round dry fuel y holds
    | finish a => exact holds

section Triple

variable (Env demand) (H : Stop → W → Prop)

/-- What holds before an action, and what behind it. -/
def Triple (P : S → W → Prop) (x : Action Resp Stop S α) (Q : α → S → W → Prop) : Prop :=
  ∀ s w, P s w → safe Env demand x s Q H w

variable {Env demand H} {P : S → W → Prop} {x : Action Resp Stop S β} {R : β → S → W → Prop}

theorem Triple.mono {P' : S → W → Prop} {R' : β → S → W → Prop} (triple : Triple Env demand H P x R)
    (before : ∀ s w, P' s w → P s w) (behind : ∀ b s w, R b s w → R' b s w) : Triple Env demand H P' x R' :=
  fun s w holds => safe_mono (triple s w (before s w holds)) behind fun _ _ => id

theorem Triple.bind (first : Triple Env demand H P x R) (second : ∀ b, Triple Env demand H (R b) (f b) Q) :
    Triple Env demand H P (x >>= f) Q := by
  intro s w holds
  rw [safe_bind]
  exact safe_mono (first s w holds) (fun b s w holds => second b s w holds) fun _ _ => id

theorem Triple.ite [Decidable c] {y : Action Resp Stop S β} (yes : c → Triple Env demand H P x R)
    (no : ¬ c → Triple Env demand H P y R) : Triple Env demand H P (if c then x else y) R := by
  by_cases here : c
  · rw [if_pos here]
    exact yes here
  · rw [if_neg here]
    exact no here

theorem triple_pure {a : α} (holds : ∀ s w, P s w → Q a s w) : Triple Env demand H P (pure a) Q := holds

theorem triple_get {Q : S → S → W → Prop} (holds : ∀ s w, P s w → Q s s w) : Triple Env demand H P get Q := holds

theorem triple_modify {f : S → S} {Q : PUnit → S → W → Prop} (holds : ∀ s w, P s w → Q ⟨⟩ (f s) w) :
    Triple Env demand H P (modify f) Q := holds

end Triple

section Maintains

variable (Env demand) (H : Stop → W → Prop) (I : S → W → Prop)

/-- What holds before the action holds behind it, whatever it gives. -/
def Maintains (x : Action Resp Stop S α) : Prop :=
  ∀ s w, I s w → safe Env demand x s (fun _ s w => I s w) H w

variable {Env demand H I}

theorem maintains_pure (a : α) : Maintains Env demand H I (pure a : Action Resp Stop S α) := fun _ _ holds => holds

theorem maintains_get : Maintains Env demand H I (get : Action Resp Stop S S) := fun _ _ holds => holds

theorem maintains_modify {f : S → S} (kept : ∀ s w, I s w → I (f s) w) :
    Maintains Env demand H I (modify f : Action Resp Stop S PUnit) := kept

theorem Maintains.followed {x : Action Resp Stop S β} {Q : α → S → W → Prop} (first : Maintains Env demand H I x)
    {s : S} {w : W} (holds : I s w) (next : ∀ b s w, I s w → safe Env demand (f b) s Q H w) :
    safe Env demand (x >>= f) s Q H w := by
  rw [safe_bind]
  exact safe_mono (first s w holds) next fun _ _ => id

theorem Maintains.bind {x : Action Resp Stop S β} (first : Maintains Env demand H I x)
    (second : ∀ b, Maintains Env demand H I (f b)) : Maintains Env demand H I (x >>= f) := by
  intro s w holds
  exact first.followed holds second

theorem Maintains.ite [Decidable c] {x y : Action Resp Stop S α} (first : Maintains Env demand H I x)
    (second : Maintains Env demand H I y) : Maintains Env demand H I (if c then x else y) := by
  split
  · exact first
  · exact second

theorem Maintains.loop (dry : ∀ s w, I s w → H outOfFuel w) (round : ∀ x, Maintains Env demand H I (body x))
    (fuel : Nat) (x : X) :
    Maintains Env demand H I (loop outOfFuel body fuel x) := by
  intro s w holds
  refine safe_loop (fun _ _ s w => I s w) ?_ (fun _ s w holds => dry s w holds) fuel x holds
  intro _ x s w holds
  refine safe_mono (round x s w holds) ?_ fun _ _ => id
  intro r s w holds
  cases r with
  | again y => exact holds
  | finish a => exact holds

end Maintains

end Action

section Serve

variable (env : W → C → (r : Req) → Option (Resp r × W))

/-- A program with the state of its environment, and the next answer. The choice settles what
the environment is free to choose. -/
def serve (config : Prog Resp Stop α × W) (choice : C) : Option (Prog Resp Stop α × W) :=
  match config.1 with
  | .ask r k => (env config.2 choice r).map fun answer => (k answer.1, answer.2)
  | _ => none

/-- What is allowed of a choice, given the request it is made for. -/
def permits (fine : W → C → Req → Prop) (config : Prog Resp Stop α × W) (choice : C) : Prop :=
  match config.1 with
  | .ask r _ => fine config.2 choice r
  | _ => True

instance {fine : W → C → Req → Prop} [∀ w choice, DecidablePred (fine w choice)] :
    ∀ (config : Prog Resp Stop α × W) (choice : C), Decidable (permits fine config choice)
  | (.ask r _, w), choice => inferInstanceAs (Decidable (fine w choice r))
  | (.done _, _), _ | (.stop _, _), _ => .isTrue trivial

/-- The environment whose choices are restricted to those that are fine. -/
def chosen (fine : W → C → Req → Prop) (w : W) (r : Req) (a : Resp r) (w' : W) : Prop :=
  ∃ choice, fine w choice r ∧ env w choice r = some (a, w')

variable {env} {fine : W → C → Req → Prop} {demand : W → Req → Prop} {Q : α → W → Prop} {H : Stop → W → Prop}

theorem serve_cases {config next : Prog Resp Stop α × W} {choice : C}
    (stepped : serve env config choice = some next) : ∃ r k a, config.1 = .ask r k ∧
      env config.2 choice r = some (a, next.2) ∧ next.1 = k a := by
  rw [serve] at stepped
  split at stepped
  · rename_i r k here
    obtain ⟨⟨a, w⟩, given, rfl⟩ := Option.map_eq_some_iff.mp stepped
    exact ⟨r, k, a, here, given, rfl⟩
  · cases stepped

theorem serve_finite (env : W → C → (r : Req) → Option (Resp r × W)) (p : Prog Resp Stop α) : ∀ w : W,
    Acc (fun next config : Prog Resp Stop α × W => ∃ choice, serve env config choice = some next) (p, w) := by
  induction p with
  | done a =>
    intro w
    constructor
    rintro next ⟨choice, stepped⟩
    cases stepped
  | stop s =>
    intro w
    constructor
    rintro next ⟨choice, stepped⟩
    cases stepped
  | ask r k ih =>
    intro w
    constructor
    rintro ⟨p, w'⟩ ⟨choice, stepped⟩
    obtain ⟨_, _, a, here, -, rfl⟩ := serve_cases stepped
    cases here
    exact ih a w'

theorem Prog.safe.run (start stop : Prog Resp Stop α × W)
    (safe : start.1.safe (chosen env fine) demand Q H start.2) (run : Run (serve env) (permits fine) start stop) :
    stop.1.safe (chosen env fine) demand Q H stop.2 := by
  apply run.keeps (P := fun config => config.1.safe (chosen env fine) demand Q H config.2) safe
  intro s choice t holds fits stepped
  obtain ⟨r, k, a, here, given, next⟩ := serve_cases stepped
  rw [permits, here] at fits
  rw [here] at holds
  rw [next]
  exact holds.2 a t.2 ⟨choice, fits, given⟩

/-- What the first part of a sequence can do, the sequence can do. -/
theorem run_bind {p q : Prog Resp Stop α} {f : α → Prog Resp Stop β} {w w' : W}
    (run : Run (serve env) (permits fine) (p, w) (q, w')) :
    Run (serve env) (permits fine) (p.bind f, w) (q.bind f, w') := by
  have lifted : ∀ config : Prog Resp Stop α × W, Run (serve env) (permits fine) (p, w) config →
      Run (serve env) (permits fine) (p.bind f, w) (config.1.bind f, config.2) := by
    intro config run
    induction run with
    | refl => exact .refl
    | next choice _ fits stepped ih =>
      obtain ⟨r, k, a, here, given, next⟩ := serve_cases stepped
      rw [permits, here] at fits
      rw [here] at ih
      rw [next]
      refine .next choice ih fits ?_
      simp [serve, Prog.bind, given]
  exact lifted (q, w') run

end Serve

/-- The environment with a record of what has been asked of it. -/
def recorded (env : W → C → (r : Req) → Option (Resp r × W)) (w : W × List Req) (choice : C) (r : Req) :
    Option (Resp r × (W × List Req)) :=
  (env w.1 choice r).map fun given => (given.1, given.2, w.2 ++ [r])

theorem run_recorded {env : W → C → (r : Req) → Option (Resp r × W)} {fine : W → C → Req → Prop}
    (start stop : Prog Resp Stop α × W) (run : Run (serve env) (permits fine) start stop) (log : List Req) :
    ∃ log', Run (serve (recorded env)) (permits fun w => fine w.1) (start.1, start.2, log) (stop.1, stop.2, log') := by
  induction run with
  | refl => exact ⟨log, .refl⟩
  | next choice _ fits stepped ih =>
    obtain ⟨log', run⟩ := ih
    obtain ⟨r, k, a, here, given, next⟩ := serve_cases stepped
    rw [permits, here] at fits
    rw [here] at run
    refine ⟨log' ++ [r], .next choice run fits ?_⟩
    simp [serve, recorded, given, next]

namespace Action

variable (env : W → C → (r : Req) → Option (Resp r × W)) (fine : W → C → Req → Prop)

theorem safe_run {demand : W → Req → Prop} {Q : α → S → W → Prop} {H : Stop → W → Prop} {x : Action Resp Stop S α}
    {s : S} {w w' : W} {p : Prog Resp Stop (α × S)} (holds : safe (chosen env fine) demand x s Q H w)
    (run : Run (serve env) (permits fine) (x s, w) (p, w')) :
    p.safe (chosen env fine) demand (fun r w => Q r.1 r.2 w) H w' :=
  Prog.safe.run (x s, w) (p, w') holds run

theorem safe_recorded {demand : W × List Req → Req → Prop} {r : Req} {Q : Resp r → S → W × List Req → Prop}
    {H : Stop → W × List Req → Prop} {s : S} {w : W} {log : List Req}
    (holds : safe (chosen env fine) (fun w => demand (w, log)) (ask r : Action Resp Stop S (Resp r)) s
    (fun a s w => Q a s (w, log ++ [r])) (fun _ _ => True) w):
    safe (chosen (recorded env) fun w => fine w.1) demand (ask r : Action Resp Stop S (Resp r)) s Q H (w, log) := by
  refine ⟨holds.1, ?_⟩
  rintro a w' ⟨choice, fits, given⟩
  obtain ⟨⟨b, w''⟩, answered, same⟩ := Option.map_eq_some_iff.mp given
  cases same
  exact holds.2 b w'' ⟨choice, fits, answered⟩

/-- The action can come to its end with this value and in these states. -/
def Reaches (x : Action Resp Stop S α) (s : S) (w : W) (a : α) (s' : S) (w' : W) : Prop :=
  Run (serve env) (permits fine) (x s, w) (.done (a, s'), w')

variable {env fine} {s s' s'' : S} {w w' w'' : W} {a : α} {b : β}

theorem reaches_pure : Reaches env fine (pure a : Action Resp Stop S α) s w a s w := .refl

theorem reaches_ask {r : Req} {given : Resp r} (choice : C) (fits : fine w choice r)
    (answered : env w choice r = some (given, w')) :
    Reaches env fine (ask r : Action Resp Stop S (Resp r)) s w given s w' :=
  .next choice .refl fits (by simp [serve, ask, answered])

theorem reaches_get : Reaches env fine (get : Action Resp Stop S S) s w s s w := .refl

theorem reaches_modify {f : S → S} : Reaches env fine (modify f : Action Resp Stop S PUnit) s w ⟨⟩ (f s) w := .refl

theorem Reaches.bind {x : Action Resp Stop S α} {f : α → Action Resp Stop S β}
    (first : Reaches env fine x s w a s' w') (second : Reaches env fine (f a) s' w' b s'' w'') :
    Reaches env fine (x >>= f) s w b s'' w'' := by
  have front := run_bind (f := fun r : α × S => f r.1 r.2) first
  exact front.trans second

theorem Reaches.again {fuel : Nat} {x y : X} (round : Reaches env fine (body x) s w (.again y) s' w')
    (rest : Reaches env fine (loop outOfFuel body fuel y) s' w' a s'' w'') :
    Reaches env fine (loop outOfFuel body (fuel + 1) x) s w a s'' w'' := by
  rw [loop]
  exact round.bind rest

theorem Reaches.finish {X : Type} {outOfFuel : Stop} {body : X → Action Resp Stop S (Step X α)} {fuel : Nat}
    {x : X} (round : Reaches env fine (body x) s w (.finish a) s' w') :
    Reaches env fine (loop outOfFuel body (fuel + 1) x) s w a s' w' := by
  rw [loop]
  exact round.bind reaches_pure

end Action

end Interaction
