import Mathlib.Data.Multiset.AddSub
import Mathlib.Data.Multiset.MapFold

/- Comparison functions that answer with a number: negative, zero or positive. They are taken to
the comparisons of the library, which have the lemmas on comparing by one field after the other. -/
namespace Comparator

variable {α β κ : Type}

/-- What the sign of the answer says. -/
def verdict (cmp : α → α → Int) (a b : α) : Ordering := compare (cmp a b) 0

variable {cmp : α → α → Int} {a b : α}

theorem verdict_eq_lt : verdict cmp a b = .lt ↔ cmp a b < 0 := Int.compare_eq_lt

theorem verdict_eq_eq : verdict cmp a b = .eq ↔ cmp a b = 0 := Int.compare_eq_eq

theorem verdict_eq_gt : verdict cmp a b = .gt ↔ 0 < cmp a b := Int.compare_eq_gt

theorem verdict_isLE : (verdict cmp a b).isLE ↔ cmp a b ≤ 0 := Int.isLE_compare

/-- A total preorder in which two values are alike exactly when they agree in a key. -/
structure Orders (cmp : α → α → Int) (key : α → κ) : Prop where
  total : ∀ a b, cmp a b ≤ 0 ∨ cmp b a ≤ 0
  trans : ∀ a b c, cmp a b ≤ 0 → cmp b c ≤ 0 → cmp a c ≤ 0
  opposite : ∀ a b, 0 < cmp a b ↔ cmp b a < 0
  zero : ∀ a b, cmp a b = 0 ↔ key a = key b

variable {key : α → κ}

theorem Orders.of_verdict (trans : Std.TransCmp (verdict cmp))
    (alike : ∀ a b, verdict cmp a b = .eq ↔ key a = key b) : Orders cmp key := by
  have opposite : ∀ a b, 0 < cmp a b ↔ cmp b a < 0 := by
    intro a b
    rw [← verdict_eq_gt, ← verdict_eq_lt]
    exact Std.OrientedCmp.gt_iff_lt
  refine ⟨fun a b => ?_, fun a b c first second => ?_, opposite, fun a b => ?_⟩
  · rcases Int.lt_or_le 0 (cmp a b) with above | below
    · exact Or.inr (Int.le_of_lt ((opposite a b).mp above))
    · exact Or.inl below
  · exact verdict_isLE.mp (Std.TransCmp.isLE_trans (verdict_isLE.mpr first) (verdict_isLE.mpr second))
  · rw [← alike, verdict_eq_eq]

theorem Orders.transCmp (orders : Orders cmp key) : Std.TransCmp (verdict cmp) where
  eq_swap {a b} := by
    have forth := orders.opposite a b
    have back := orders.opposite b a
    rcases Int.lt_trichotomy (cmp a b) 0 with below | alike | above
    · rw [verdict_eq_lt.mpr below, verdict_eq_gt.mpr (by omega), Ordering.swap_gt]
    · rw [verdict_eq_eq.mpr alike, verdict_eq_eq.mpr (by omega), Ordering.swap_eq]
    · rw [verdict_eq_gt.mpr above, verdict_eq_lt.mpr (by omega), Ordering.swap_lt]
  isLE_trans {a b c} first second :=
    verdict_isLE.mpr (orders.trans a b c (verdict_isLE.mp first) (verdict_isLE.mp second))

theorem Orders.congr {ι : Type} {key' : α → ι} (orders : Orders cmp key)
    (same : ∀ a b, key a = key b ↔ key' a = key' b) : Orders cmp key' :=
  ⟨orders.total, orders.trans, orders.opposite, fun a b => (orders.zero a b).trans (same a b)⟩

theorem Orders.on {cmp : β → β → Int} {key : β → κ} (orders : Orders cmp key) (field : α → β) :
    Orders (fun a b => cmp (field a) (field b)) (fun a => key (field a)) :=
  ⟨fun _ _ => orders.total _ _, fun _ _ _ => orders.trans _ _ _, fun _ _ => orders.opposite _ _,
    fun _ _ => orders.zero _ _⟩

/-- The first answer that is not zero. -/
def thenBy (first second : α → α → Int) (a b : α) : Int := if first a b ≠ 0 then first a b else second a b

theorem verdict_thenBy (first second : α → α → Int) :
    verdict (thenBy first second) = compareLex (verdict first) (verdict second) := by
  funext a b
  unfold thenBy compareLex
  rcases Int.lt_trichotomy (first a b) 0 with below | alike | above
  · rw [verdict_eq_lt.mpr below, Ordering.lt_then, verdict_eq_lt, if_pos (Int.ne_of_lt below)]
    exact below
  · rw [verdict_eq_eq.mpr alike, Ordering.eq_then, verdict, if_neg (not_not.mpr alike), verdict]
  · rw [verdict_eq_gt.mpr above, Ordering.gt_then, verdict_eq_gt, if_pos (Int.ne_of_gt above)]
    exact above

theorem Orders.thenBy {ι : Type} {first second : α → α → Int} {key' : α → ι} (before : Orders first key)
    (after : Orders second key') :
    Orders (thenBy first second) (fun a => (key a, key' a)) := by
  have first_trans := before.transCmp
  have second_trans := after.transCmp
  refine Orders.of_verdict ?_ fun a b => ?_
  · rw [verdict_thenBy]
    infer_instance
  · rw [verdict_thenBy, compareLex_eq_eq, verdict_eq_eq, verdict_eq_eq, before.zero, after.zero, Prod.mk.injEq]

/-- Nothing that is sorted from `b` on is alike to what goes before `b`. -/
theorem key_notMem (orders : Orders cmp key) {l : List α} (sorted : (b :: l).Pairwise (cmp · · ≤ 0))
    (before : cmp a b < 0) : key a ∉ (b :: l).map key := by
  intro there
  obtain ⟨c, c_in, same⟩ := List.mem_map.mp there
  have above : cmp b c ≤ 0 := by
    rcases List.mem_cons.mp c_in with rfl | later
    · exact Int.le_of_eq ((orders.zero _ _).mpr rfl)
    · exact List.rel_of_pairwise_cons sorted later
  have back : cmp c a ≤ 0 := Int.le_of_eq ((orders.zero _ _).mpr same)
  have below := orders.trans b c a above back
  have opposite := (orders.opposite b a).mpr before
  omega

end Comparator
