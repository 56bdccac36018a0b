import Mathlib.Data.List.Basic
import Mathlib.Logic.Function.Basic

/- A queue in a ring of `n` slots. New items are put in at the head; the tail is where the oldest
one is. One slot stays unused, so that an empty ring is not mistaken for a full one. -/

structure RingQueue (α : Type) (n : Nat) where
  slots : Fin n → α
  head : Fin n
  tail : Fin n

namespace RingQueue

variable {α : Type} {n : Nat}

/-- The slot behind a slot. -/
def next (i : Fin n) : Fin n := ⟨(i.val + 1) % n, Nat.mod_lt _ i.pos⟩

def isFull (r : RingQueue α n) : Bool := next r.head = r.tail

def push (r : RingQueue α n) (a : α) : RingQueue α n :=
  { r with slots := Function.update r.slots r.head a, head := next r.head }

def set (r : RingQueue α n) (i : Fin n) (a : α) : RingQueue α n := { r with slots := Function.update r.slots i a }

/-- The first slot from `i` on, up to the head, whose item fits. -/
def findFrom (r : RingQueue α n) (fits : α → Bool) : Nat → Fin n → Option (Fin n)
  | 0, _ => none
  | fuel + 1, i =>
    if i = r.head then none
    else if fits (r.slots i) then some i
    else r.findFrom fits fuel (next i)

def find (r : RingQueue α n) (fits : α → Bool) : Option (Fin n) := r.findFrom fits n r.tail

/-- The tail goes on as long as its item is done with. -/
def popFrom (r : RingQueue α n) (done : α → Bool) : Nat → Fin n → Fin n
  | 0, i => i
  | fuel + 1, i => if i ≠ r.head ∧ done (r.slots i) then r.popFrom done fuel (next i) else i

def popWhile (r : RingQueue α n) (done : α → Bool) : RingQueue α n := { r with tail := r.popFrom done n r.tail }

/-- How far it is from `i` to the head. -/
def room (r : RingQueue α n) (i : Fin n) : Nat := if i.val ≤ r.head.val then r.head.val - i.val else r.head.val + n - i.val

/-- The items of `k` slots from `i` on. -/
def walk (slots : Fin n → α) : Nat → Fin n → List α
  | 0, _ => []
  | k + 1, i => slots i :: walk slots k (next i)

/-- The items of the queue, the oldest first. -/
def items (r : RingQueue α n) : List α := walk r.slots (r.room r.tail) r.tail

variable {r : RingQueue α n} {i j : Fin n}

theorem next_val (i : Fin n) : (next i).val = if i.val + 1 = n then 0 else i.val + 1 := by
  have bound := i.isLt
  rw [next]
  split
  · rename_i last
    simp [last]
  · exact Nat.mod_eq_of_lt (by omega)

theorem room_lt (r : RingQueue α n) (i : Fin n) : r.room i < n := by
  have := i.isLt
  have := r.head.isLt
  rw [room]
  split <;> omega

theorem room_eq_zero : r.room i = 0 ↔ i = r.head := by
  have := i.isLt
  rw [room, Fin.ext_iff]
  split <;> omega

theorem room_injective (same : r.room i = r.room j) : i = j := by
  have := i.isLt
  have := j.isLt
  rw [room, room] at same
  apply Fin.ext
  split at same <;> split at same <;> omega

theorem room_next (other : i ≠ r.head) : r.room i = r.room (next i) + 1 := by
  have inside := i.isLt
  have bound := r.head.isLt
  have apart : i.val ≠ r.head.val := fun same => other (Fin.ext same)
  have after := next_val i
  rw [room, room]
  by_cases last : i.val + 1 = n
  · rw [if_pos last] at after
    rw [after, if_neg (by omega), if_pos (by omega)]
    omega
  · rw [if_neg last] at after
    rw [after]
    split <;> split <;> omega

theorem ne_head_of_room {k : Nat} (at_ : r.room i = k + 1) : i ≠ r.head := by
  intro here
  rw [room_eq_zero.mpr here] at at_
  cases at_

@[simp] theorem length_walk (slots : Fin n → α) (k : Nat) : ∀ i : Fin n, (walk slots k i).length = k := by
  induction k with
  | zero => intro i; rfl
  | succ k ih =>
    intro i
    rw [walk, List.length_cons, ih]

theorem length_items (r : RingQueue α n) : r.items.length = r.room r.tail := length_walk _ _ _

theorem length_items_lt (r : RingQueue α n) : r.items.length < n := by
  rw [length_items]
  exact room_lt r r.tail

theorem isFull_iff (r : RingQueue α n) : r.isFull = true ↔ r.items.length + 1 = n := by
  have bound := r.head.isLt
  have inside := r.tail.isLt
  have after := next_val r.head
  have same : r.isFull = true ↔ (next r.head).val = r.tail.val := by simp [isFull, Fin.ext_iff]
  rw [same, length_items, room, after]
  split <;> split <;> omega

theorem walk_update_of_lt (a : α) : ∀ (k : Nat) (i : Fin n), r.room i = k → r.room j = 0 ∨ k < r.room j →
    walk (Function.update r.slots j a) k i = walk r.slots k i := by
  intro k
  induction k with
  | zero => intros; rfl
  | succ k ih =>
    intro i at_ away
    have after := room_next (ne_head_of_room at_)
    have other : i ≠ j := by
      rintro rfl
      omega
    rw [walk, walk, Function.update_of_ne other, ih (next i) (by omega) (by omega)]

theorem walk_update (a : α) : ∀ (k : Nat) (i : Fin n), r.room i = k → 0 < r.room j → r.room j ≤ k →
    walk (Function.update r.slots j a) k i = (walk r.slots k i).set (k - r.room j) a := by
  intro k
  induction k with
  | zero => intros; omega
  | succ k ih =>
    intro i at_ positive inside
    have after := room_next (ne_head_of_room at_)
    by_cases here : r.room j = k + 1
    · have same : i = j := room_injective (at_.trans here.symm)
      subst same
      rw [walk, walk, Function.update_self, walk_update_of_lt a k (next i) (by omega) (by omega), at_,
        Nat.sub_self, List.set_cons_zero]
    · have other : i ≠ j := by
        rintro rfl
        exact here at_
      have behind : k + 1 - r.room j = k - r.room j + 1 := by omega
      rw [walk, walk, Function.update_of_ne other, ih (next i) (by omega) positive (by omega), behind,
        List.set_cons_succ]

/-- The slots of the queue: those that a walk from the tail meets. -/
def Holds (r : RingQueue α n) (i : Fin n) : Prop := 0 < r.room i ∧ r.room i ≤ r.room r.tail

/-- Where in the queue the item of a slot is. -/
def place (r : RingQueue α n) (i : Fin n) : Nat := r.room r.tail - r.room i

theorem items_set (holds : r.Holds i) (a : α) : (r.set i a).items = r.items.set (r.place i) a :=
  walk_update a _ _ rfl holds.1 holds.2

theorem getElem?_walk : ∀ (k : Nat) (i : Fin n), r.room i = k → 0 < r.room j → r.room j ≤ k →
    (walk r.slots k i)[k - r.room j]? = some (r.slots j) := by
  intro k
  induction k with
  | zero => intros; omega
  | succ k ih =>
    intro i at_ positive inside
    have after := room_next (ne_head_of_room at_)
    by_cases here : r.room j = k + 1
    · have same : i = j := room_injective (at_.trans here.symm)
      subst same
      rw [walk, at_, Nat.sub_self, List.getElem?_cons_zero]
    · have behind : k + 1 - r.room j = k - r.room j + 1 := by omega
      rw [walk, behind, List.getElem?_cons_succ]
      exact ih (next i) (by omega) positive (by omega)

theorem items_place (holds : r.Holds i) : r.items[r.place i]? = some (r.slots i) :=
  getElem?_walk _ _ rfl holds.1 holds.2

/-- The head of the ring with one more item is one slot further on. -/
theorem room_push (a : α) (away : i ≠ next r.head) : (r.push a).room i = r.room i + 1 := by
  have inside := i.isLt
  have bound := r.head.isLt
  have after := next_val r.head
  have apart : i.val ≠ (next r.head).val := fun same => away (Fin.ext same)
  have moved : (r.push a).head = next r.head := rfl
  rw [room, room, moved]
  rw [after] at apart ⊢
  by_cases last : r.head.val + 1 = n
  · simp only [if_pos last] at apart ⊢
    split <;> split <;> omega
  · simp only [if_neg last] at apart ⊢
    split <;> split <;> omega

theorem room_next_head (r : RingQueue α n) : r.room (next r.head) + 1 = n := by
  have bound := r.head.isLt
  have after := next_val r.head
  rw [room, after]
  split <;> split <;> omega

theorem walk_push (a : α) : ∀ (k : Nat) (i : Fin n), r.room i = k → k + 1 < n →
    walk (r.push a).slots (k + 1) i = walk r.slots k i ++ [a] := by
  intro k
  induction k with
  | zero =>
    intro i at_ _
    have here := room_eq_zero.mp at_
    rw [walk, walk, walk, here]
    simp [push]
  | succ k ih =>
    intro i at_ small
    have after := room_next (ne_head_of_room at_)
    have other : i ≠ r.head := ne_head_of_room at_
    have rest := ih (next i) (by omega) (by omega)
    rw [walk, rest, walk, List.cons_append]
    simp [push, Function.update_of_ne other]

theorem items_push (r : RingQueue α n) (a : α) (free : r.isFull = false) : (r.push a).items = r.items ++ [a] := by
  have short : r.items.length + 1 ≠ n := by
    intro full
    rw [(isFull_iff r).mpr full] at free
    cases free
  have bound := length_items_lt r
  rw [length_items] at short bound
  have away : r.tail ≠ next r.head := by
    intro same
    have := room_next_head r
    rw [← same] at this
    omega
  rw [items, items, ← walk_push a _ _ rfl (by omega)]
  show walk _ ((r.push a).room r.tail) r.tail = _
  rw [room_push a away]

theorem findFrom_some (fits : α → Bool) : ∀ (fuel : Nat) (i : Fin n), r.findFrom fits fuel i = some j →
    fits (r.slots j) = true ∧ 0 < r.room j ∧ r.room j ≤ r.room i := by
  intro fuel
  induction fuel with
  | zero => intro i found; cases found
  | succ fuel ih =>
    intro i found
    rw [findFrom] at found
    split at found
    · cases found
    · rename_i other
      have after := room_next other
      split at found
      · rename_i here
        cases found
        exact ⟨here, by omega, Nat.le_refl _⟩
      · obtain ⟨here, positive, inside⟩ := ih (next i) found
        exact ⟨here, positive, by omega⟩

theorem findFrom_none (fits : α → Bool) : ∀ (fuel k : Nat) (i : Fin n), r.room i = k → k < fuel →
    r.findFrom fits fuel i = none → ∀ a ∈ walk r.slots k i, fits a = false := by
  intro fuel
  induction fuel with
  | zero => intros; omega
  | succ fuel ih =>
    intro k i at_ enough found
    rw [findFrom] at found
    cases k with
    | zero => simp [walk]
    | succ k =>
      have other := ne_head_of_room at_
      have after := room_next other
      rw [if_neg other] at found
      split at found
      · cases found
      · rename_i different
        have rest := ih k (next i) (by omega) (by omega) found
        intro a member
        rw [walk, List.mem_cons] at member
        rcases member with rfl | later
        · simpa using different
        · exact rest a later

theorem find_some {fits : α → Bool} (found : r.find fits = some i) :
    fits (r.slots i) = true ∧ r.Holds i := findFrom_some fits n r.tail found

theorem find_none {fits : α → Bool} (found : r.find fits = none) : ∀ a ∈ r.items, fits a = false :=
  findFrom_none fits n _ r.tail rfl (room_lt r r.tail) found

/-- What is in the ring is found; what is found is in the ring. -/
theorem find_mem (fits : α → Bool) {a : α} (member : a ∈ r.items) (here : fits a = true) :
    ∃ i, r.find fits = some i ∧ r.Holds i ∧ fits (r.slots i) = true ∧ r.slots i ∈ r.items := by
  cases found : r.find fits with
  | none =>
    have never := find_none found a member
    rw [here] at never
    cases never
  | some i =>
    obtain ⟨same, holds⟩ := find_some found
    exact ⟨i, rfl, holds, same, List.mem_of_getElem? (items_place holds)⟩

theorem walk_popFrom (done : α → Bool) : ∀ (fuel k : Nat) (i : Fin n), r.room i = k → k < fuel →
    walk r.slots (r.room (r.popFrom done fuel i)) (r.popFrom done fuel i) =
      (walk r.slots k i).dropWhile done := by
  intro fuel
  induction fuel with
  | zero => intros; omega
  | succ fuel ih =>
    intro k i at_ enough
    rw [popFrom]
    cases k with
    | zero =>
      rw [if_neg (by simp [room_eq_zero.mp at_]), at_]
      rfl
    | succ k =>
      have other := ne_head_of_room at_
      have after := room_next other
      cases here : done (r.slots i) with
      | true =>
        rw [if_pos ⟨other, rfl⟩, ih k (next i) (by omega) (by omega), walk, List.dropWhile_cons_of_pos here]
      | false =>
        rw [if_neg (by simp), at_, walk, List.dropWhile_cons_of_neg (by simp [here])]

theorem items_popWhile (r : RingQueue α n) (done : α → Bool) : (r.popWhile done).items = r.items.dropWhile done :=
  walk_popFrom done n _ r.tail rfl (room_lt r r.tail)

end RingQueue
