import GnomeVfs.Environment

/- Programs that are run in another environment than the one they were written for. -/
namespace Interaction

variable {Req Req' : Type} {Resp : Req → Type} {Resp' : Req' → Type} {Stop α V V' : Type}

/-- The same program, with its requests made of another environment. -/
def Prog.via (f : Req → Req') (given : ∀ r, Resp' (f r) → Resp r) : Prog Resp Stop α → Prog Resp' Stop α
  | .done a => .done a
  | .stop s => .stop s
  | .ask r k => .ask (f r) fun a => (k (given r a)).via f given

/-- What the other environment can do, the first one could do as well. -/
theorem Prog.safe_via {f : Req → Req'} {given : ∀ r, Resp' (f r) → Resp r} {Env : V → (r : Req) → Resp r → V → Prop}
    {demand : V → Req → Prop} {Env' : V' → (r : Req') → Resp' r → V' → Prop} {demand' : V' → Req' → Prop}
    (embed : V → V') (demands : ∀ v r, demand v r → demand' (embed v) (f r))
    (answers : ∀ v r a v', demand v r → Env' (embed v) (f r) a v' → ∃ u, v' = embed u ∧ Env v r (given r a) u)
    {Q : α → V → Prop} {Q' : α → V' → Prop} {H : Stop → V → Prop} {H' : Stop → V' → Prop}
    (returned : ∀ a v, Q a v → Q' a (embed v)) (stopped : ∀ s v, H s v → H' s (embed v))
    {p : Prog Resp Stop α} : ∀ {v : V}, p.safe Env demand Q H v →
      (p.via f given).safe Env' demand' Q' H' (embed v) := by
  induction p with
  | done a => exact fun holds => returned a _ holds
  | stop s => exact fun holds => stopped s _ holds
  | ask r k ih =>
    intro v holds
    refine ⟨demands v r holds.1, ?_⟩
    intro a v' answered
    obtain ⟨u, rfl, could⟩ := answers v r a v' holds.1 answered
    exact ih (given r a) (holds.2 _ u could)

end Interaction
