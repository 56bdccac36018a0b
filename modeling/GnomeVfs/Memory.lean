import Mathlib.Data.List.Basic

/- Blocks of memory as lists: what is copied into them, and what is read back. -/
namespace Memory

variable {α : Type} {memory items : List α} {start len : Nat}

/-- `len` items from `start` on. -/
def slice (memory : List α) (start len : Nat) : List α := (memory.drop start).take len

/-- The memory with the items copied to `start`. -/
def write (memory : List α) (start : Nat) (items : List α) : List α :=
  memory.take start ++ items ++ memory.drop (start + items.length)

theorem length_slice (fits : start + len ≤ memory.length) : (slice memory start len).length = len := by
  rw [slice, List.length_take, List.length_drop]
  omega

theorem length_write (fits : start + items.length ≤ memory.length) :
    (write memory start items).length = memory.length := by
  rw [write]
  simp only [List.length_append, List.length_take, List.length_drop]
  omega

theorem slice_zero (memory : List α) (start : Nat) : slice memory start 0 = [] := List.take_zero

theorem slice_add (memory : List α) (start first second : Nat) :
    slice memory start (first + second) = slice memory start first ++ slice memory (start + first) second := by
  rw [slice, slice, slice, List.take_add, List.drop_drop]

theorem slice_write (fits : start + items.length ≤ memory.length) :
    slice (write memory start items) start items.length = items := by
  have short : (memory.take start).length = start := by
    rw [List.length_take]
    omega
  rw [slice, write, List.append_assoc, List.drop_left' short]
  exact List.take_left

theorem slice_write_before (fits : start + len ≤ memory.length) :
    slice (write memory (start + len) items) start len = slice memory start len := by
  have short : (memory.take (start + len)).length = start + len := by
    rw [List.length_take]
    omega
  rw [slice, write, List.append_assoc, List.drop_append_of_le_length (by omega),
    List.take_append_of_le_length (by rw [List.length_drop]; omega), List.drop_take, List.take_take, slice]
  congr 1
  omega

theorem slice_write_append (memory items : List α) (start len : Nat)
    (fits : start + len + items.length ≤ memory.length) :
    slice (write memory (start + len) items) start (len + items.length) = slice memory start len ++ items := by
  rw [slice_add, slice_write_before (by omega), slice_write fits]

end Memory
