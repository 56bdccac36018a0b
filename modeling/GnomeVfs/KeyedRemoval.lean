import Mathlib.Data.List.Count
import Mathlib.Data.Multiset.AddSub
import Mathlib.Data.Multiset.Filter
import Mathlib.Data.Multiset.MapFold

/- Entries that are removed from a list by a key which several of them may share: each time the first
one that has it goes. -/
namespace KeyedRemoval

variable {α κ φ : Type} [DecidableEq κ]

def removeFirst (key : α → κ) (k : κ) (l : List α) : List α := l.eraseP fun a => key a = k

def removeFirsts (key : α → κ) (ks : List κ) (l : List α) : List α := ks.foldl (fun l k => removeFirst key k l) l

/-- The entries that have a key. -/
def having (key : α → κ) (k : κ) (l : List α) : List α := l.filter fun a => key a = k

variable {key : α → κ} {k : κ} {a : α}

theorem removeFirst_cons_of_eq (here : key a = k) (l : List α) :
    removeFirst key k (a :: l) = l := List.eraseP_cons_of_pos (p := fun a => key a = k) (decide_eq_true here)

theorem removeFirst_cons_of_ne (other : key a ≠ k) (l : List α) :
    removeFirst key k (a :: l) = a :: removeFirst key k l :=
  List.eraseP_cons_of_neg (p := fun a => key a = k) fun here => other (of_decide_eq_true here)

theorem having_cons_of_eq {key : α → κ} {k : κ} {a : α} (here : key a = k) (l : List α) :
    having key k (a :: l) = a :: having key k l := List.filter_cons_of_pos (p := fun a => key a = k) (decide_eq_true here)

theorem having_cons_of_ne {key : α → κ} {k : κ} {a : α} (other : key a ≠ k) (l : List α) :
    having key k (a :: l) = having key k l :=
  List.filter_cons_of_neg (p := fun a => key a = k) fun here => other (of_decide_eq_true here)

theorem having_removeFirst (key : α → κ) (k w : κ) (l : List α) :
    having key w (removeFirst key k l) = if w = k then (having key w l).drop 1 else having key w l := by
  induction l with
  | nil =>
    rw [removeFirst, List.eraseP_nil, having, List.filter_nil, List.drop_nil, ite_self]
  | cons a l ih =>
    by_cases first : key a = k
    · rw [removeFirst_cons_of_eq first]
      by_cases same : w = k
      · rw [if_pos same, having_cons_of_eq (first.trans same.symm), List.drop_one, List.tail_cons]
      · rw [if_neg same, having_cons_of_ne fun here => same (here.symm.trans first)]
    · rw [removeFirst_cons_of_ne first]
      by_cases here : key a = w
      · rw [having_cons_of_eq here, having_cons_of_eq here, ih, if_neg fun same => first (here.trans same),
          if_neg fun same => first (here.trans same)]
      · rw [having_cons_of_ne here, having_cons_of_ne here, ih]

theorem removeFirst_sublist (key : α → κ) (k : κ) (l : List α) : List.Sublist (removeFirst key k l) l := List.eraseP_sublist

theorem removeFirsts_sublist (key : α → κ) (ks : List κ) (l : List α) : List.Sublist (removeFirsts key ks l) l := by
  induction ks generalizing l with
  | nil => exact List.Sublist.refl l
  | cons k ks ih => exact (ih (removeFirst key k l)).trans (removeFirst_sublist key k l)

theorem having_removeFirsts (key : α → κ) (ks : List κ) (w : κ) (l : List α) :
    having key w (removeFirsts key ks l) = (having key w l).drop (having id w ks).length := by
  induction ks generalizing l with
  | nil => rfl
  | cons k ks ih =>
    rw [removeFirsts, List.foldl_cons]
    refine (ih (removeFirst key k l)).trans ?_
    rw [having_removeFirst]
    by_cases same : w = k
    · rw [if_pos same, List.drop_drop, @having_cons_of_eq κ κ _ id w k same.symm, List.length_cons, Nat.add_comm]
    · rw [if_neg same, @having_cons_of_ne κ κ _ id w k (Ne.symm same)]

variable {l : List α}

theorem removeFirst_found {p : α → Bool} (apart : (l.map key).Nodup) (found : l.find? p = some a) :
    removeFirst key (key a) l = l.eraseP p := by
  induction l with
  | nil => cases found
  | cons b l ih =>
    rw [List.map_cons, List.nodup_cons] at apart
    by_cases here : p b = true
    · rw [List.find?_cons_of_pos here] at found
      obtain rfl := Option.some.inj found
      rw [removeFirst_cons_of_eq rfl, List.eraseP_cons_of_pos here]
    · rw [List.find?_cons_of_neg here] at found
      have other : key b ≠ key a := fun same => apart.1 (same ▸ List.mem_map_of_mem (List.mem_of_find?_eq_some found))
      rw [removeFirst_cons_of_ne other, List.eraseP_cons_of_neg here, ih apart.2 found]

theorem removeFirst_of_notMem (absent : k ∉ l.map key) : removeFirst key k l = l := by
  refine List.eraseP_of_forall_not fun a there => ?_
  exact fun same => absent (List.mem_map.mpr ⟨a, there, of_decide_eq_true same⟩)

theorem mem_removeFirst (apart : (l.map key).Nodup) :
    a ∈ removeFirst key k l ↔ a ∈ l ∧ key a ≠ k := by
  induction l with
  | nil => exact ⟨fun there => absurd there List.not_mem_nil, fun there => absurd there.1 List.not_mem_nil⟩
  | cons b l ih =>
    rw [List.map_cons, List.nodup_cons] at apart
    by_cases here : key b = k
    · rw [removeFirst_cons_of_eq here]
      constructor
      · exact fun there => ⟨List.mem_cons_of_mem _ there, fun same => apart.1 (here.trans same.symm ▸ List.mem_map_of_mem there)⟩
      · rintro ⟨there, other⟩
        exact (List.mem_cons.mp there).resolve_left fun same => other (same ▸ here)
    · rw [removeFirst_cons_of_ne here, List.mem_cons, List.mem_cons, ih apart.2]
      constructor
      · rintro (rfl | ⟨there, other⟩)
        · exact ⟨Or.inl rfl, here⟩
        · exact ⟨Or.inr there, other⟩
      · rintro ⟨rfl | there, other⟩
        · exact Or.inl rfl
        · exact Or.inr ⟨there, other⟩

variable [DecidableEq φ]

theorem count_map_having {key : α → κ} {facts : α → φ} {keyOf : φ → κ} (determined : ∀ a, keyOf (facts a) = key a)
    (x : φ) (l : List α) : (l.map facts).count x = ((having key (keyOf x) l).map facts).count x := by
  induction l with
  | nil => rfl
  | cons a l ih =>
    by_cases here : facts a = x
    · have mine : key a = keyOf x := by rw [← determined, here]
      rw [having_cons_of_eq mine, List.map_cons, List.map_cons, here, List.count_cons_self, List.count_cons_self, ih]
    · rw [List.map_cons, List.count_cons_of_ne here, ih]
      by_cases mine : key a = keyOf x
      · rw [having_cons_of_eq mine, List.map_cons, List.count_cons_of_ne here]
      · rw [having_cons_of_ne mine]

/-- What goes is what is meant to go exactly if, of each key, the first entries are the ones that are
meant. -/
theorem removeFirsts_exact {key : α → κ} {facts : α → φ} {keyOf : φ → κ}
    (determined : ∀ a, keyOf (facts a) = key a) (ks : List κ) (gone : List φ) (l : List α) :
    (((removeFirsts key ks l).map facts : Multiset φ) + gone = (l.map facts : Multiset φ)) ↔
      ∀ w, List.Perm (((having key w l).take (having id w ks).length).map facts) (having keyOf w gone) := by
  have split (w : κ) (x : φ) : ((having key w l).map facts).count x =
      (((having key w l).take (having id w ks).length).map facts).count x +
        ((having key w (removeFirsts key ks l)).map facts).count x := by
    rw [having_removeFirsts, ← List.count_append, ← List.map_append, List.take_append_drop]
  have alone (x : φ) : gone.count x = (having keyOf (keyOf x) gone).count x := by
    have counted := @count_map_having φ κ φ _ _ keyOf id keyOf (fun _ => rfl) x gone
    rwa [List.map_id, List.map_id] at counted
  constructor
  · intro total w
    rw [List.perm_iff_count]
    intro x
    by_cases mine : keyOf x = w
    · subst mine
      have counts := congrArg (Multiset.count x) total
      rw [Multiset.count_add, Multiset.coe_count, Multiset.coe_count, Multiset.coe_count, count_map_having determined,
        count_map_having determined x l, split, alone] at counts
      omega
    · have absent : x ∉ having keyOf w gone := fun there => mine (of_decide_eq_true (List.mem_filter.mp there).2)
      have other : x ∉ ((having key w l).take (having id w ks).length).map facts := by
        intro there
        obtain ⟨a, among, rfl⟩ := List.mem_map.mp there
        exact mine ((determined a).trans (of_decide_eq_true (List.mem_filter.mp (List.mem_of_mem_take among)).2))
      rw [List.count_eq_zero.mpr absent, List.count_eq_zero.mpr other]
  · intro first
    ext x
    rw [Multiset.count_add, Multiset.coe_count, Multiset.coe_count, Multiset.coe_count, count_map_having determined,
      count_map_having determined x l, split, alone, (first (keyOf x)).count_eq x]
    omega

end KeyedRemoval
