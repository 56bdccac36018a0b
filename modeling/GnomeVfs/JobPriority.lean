import Mathlib.Algebra.Ring.Int.Defs
import Mathlib.Data.Set.Basic
import Mathlib.Data.UInt

/- The order in which the thread pool takes waiting jobs: `gnome-vfs-job-queue.c`. -/
namespace GnomeVfs.JobQueue

/-- What the sort function reads of a job. -/
structure Job where
  priority : Int
  jobHandle : UInt32
  deriving DecidableEq

/-- Negative where the first job is to be processed before the second. The difference of the
handles is an unsigned number, read as a signed one. -/
def prioritizeThreads (jobA jobB : Job) : Int32 :=
  if jobA.priority > jobB.priority then -1
  else if jobA.priority < jobB.priority then 1
  else (jobA.jobHandle - jobB.jobHandle).toInt32

/-- How far apart two handles are. -/
def distance (a b : UInt32) : Nat := max a.toNat b.toNat - min a.toNat b.toNat

/-- A strict order on jobs by priority and then by age. -/
structure Ordered (jobs : Set Job) : Prop where
  antisymm : ∀ a ∈ jobs, ∀ b ∈ jobs, prioritizeThreads a b < 0 ↔ 0 < prioritizeThreads b a
  trans : ∀ a ∈ jobs, ∀ b ∈ jobs, ∀ c ∈ jobs,
    prioritizeThreads a b < 0 → prioritizeThreads b c < 0 → prioritizeThreads a c < 0
  urgent : ∀ a ∈ jobs, ∀ b ∈ jobs, b.priority < a.priority → prioritizeThreads a b < 0
  older : ∀ a ∈ jobs, ∀ b ∈ jobs, a.priority = b.priority → a.jobHandle < b.jobHandle →
    prioritizeThreads a b < 0

theorem prioritizeThreads_of_gt {a b : Job} (above : b.priority < a.priority) :
    prioritizeThreads a b = -1 :=
  if_pos above

theorem prioritizeThreads_of_lt {a b : Job} (below : a.priority < b.priority) :
    prioritizeThreads a b = 1 := by
  rw [prioritizeThreads, if_neg (by omega), if_pos below]

theorem prioritizeThreads_of_eq {a b : Job} (same : a.priority = b.priority) :
    prioritizeThreads a b = (a.jobHandle - b.jobHandle).toInt32 := by
  rw [prioritizeThreads, if_neg (by omega), if_neg (by omega)]

/-- The difference of the handles, wrapped into the range of a signed number. -/
theorem toInt_difference (a b : UInt32) :
    (a - b).toInt32.toInt = Int.bmod ((a.toNat : Int) - b.toNat) (2 ^ 32) := by
  change (a.toBitVec - b.toBitVec).toInt = _
  rw [BitVec.toInt_eq_toNat_bmod, BitVec.toNat_sub, UInt32.toNat_toBitVec, UInt32.toNat_toBitVec,
    Int.bmod_def, Int.bmod_def]
  have bound := b.toNat_lt
  omega

theorem difference_neg_iff (a b : UInt32) :
    (a - b).toInt32 < 0 ↔ a.toNat < b.toNat ∧ b.toNat ≤ a.toNat + 2 ^ 31 ∨ b.toNat + 2 ^ 31 ≤ a.toNat := by
  rw [Int32.lt_iff_toInt_lt, toInt_difference, Int32.toInt_zero, Int.bmod_def]
  have boundA := a.toNat_lt
  have boundB := b.toNat_lt
  omega

theorem difference_pos_iff (a b : UInt32) :
    0 < (a - b).toInt32 ↔ b.toNat < a.toNat ∧ a.toNat < b.toNat + 2 ^ 31 ∨ a.toNat + 2 ^ 31 < b.toNat := by
  rw [Int32.lt_iff_toInt_lt, toInt_difference, Int32.toInt_zero, Int.bmod_def]
  have boundA := a.toNat_lt
  have boundB := b.toNat_lt
  omega

theorem close_neg_iff {a b : Job} (close : a.priority = b.priority → distance a.jobHandle b.jobHandle < 2 ^ 31) :
    prioritizeThreads a b < 0 ↔
      b.priority < a.priority ∨ a.priority = b.priority ∧ a.jobHandle.toNat < b.jobHandle.toNat := by
  rcases lt_trichotomy a.priority b.priority with below | same | above
  · rw [prioritizeThreads_of_lt below]
    exact iff_of_false (by decide) (by omega)
  · have near := close same
    rw [prioritizeThreads_of_eq same, difference_neg_iff]
    unfold distance at near
    omega
  · rw [prioritizeThreads_of_gt above]
    exact iff_of_true (by decide) (Or.inl above)

theorem close_pos_iff {a b : Job} (close : a.priority = b.priority → distance a.jobHandle b.jobHandle < 2 ^ 31) :
    0 < prioritizeThreads b a ↔
      b.priority < a.priority ∨ a.priority = b.priority ∧ a.jobHandle.toNat < b.jobHandle.toNat := by
  rcases lt_trichotomy a.priority b.priority with below | same | above
  · rw [prioritizeThreads_of_gt below]
    exact iff_of_false (by decide) (by omega)
  · have near := close same
    rw [prioritizeThreads_of_eq same.symm, difference_pos_iff]
    unfold distance at near
    omega
  · rw [prioritizeThreads_of_lt above]
    exact iff_of_true (by decide) (Or.inl above)

theorem far_apart {a b : Job} (same : a.priority = b.priority)
    (far : a.jobHandle.toNat + 2 ^ 31 ≤ b.jobHandle.toNat) : prioritizeThreads b a < 0 := by
  rw [prioritizeThreads_of_eq same.symm, difference_neg_iff]
  omega

/-- The sort function orders jobs by priority and then by age exactly when no two jobs of one
priority have handles that are half of all handles apart. -/
theorem ordered_iff_close (jobs : Set Job) :
    Ordered jobs ↔ ∀ a ∈ jobs, ∀ b ∈ jobs, a.priority = b.priority → distance a.jobHandle b.jobHandle < 2 ^ 31 := by
  constructor
  · have near : Ordered jobs → ∀ a ∈ jobs, ∀ b ∈ jobs, a.priority = b.priority →
        b.jobHandle.toNat < a.jobHandle.toNat + 2 ^ 31 := by
      intro ordered a a_in b b_in same
      by_contra far
      have before := far_apart same (Nat.not_lt.mp far)
      have first := ordered.older a a_in b b_in same (UInt32.lt_iff_toNat_lt.mpr (by omega))
      have after := (ordered.antisymm a a_in b b_in).mp first
      exact absurd before (Int32.not_lt.mpr (Int32.le_of_lt after))
    intro ordered a a_in b b_in same
    have forth := near ordered a a_in b b_in same
    have back := near ordered b b_in a a_in same.symm
    unfold distance
    omega
  · intro close
    have neg := fun a a_in b b_in => @close_neg_iff a b (close a a_in b b_in)
    refine ⟨fun a a_in b b_in => ?_, fun a a_in b b_in c c_in first second => ?_, fun a a_in b b_in above => ?_,
      fun a a_in b b_in same older => ?_⟩
    · rw [neg a a_in b b_in, close_pos_iff (close a a_in b b_in)]
    · rw [neg a a_in b b_in] at first
      rw [neg b b_in c c_in] at second
      rw [neg a a_in c c_in]
      omega
    · exact (neg a a_in b b_in).mpr (Or.inl above)
    · exact (neg a a_in b b_in).mpr (Or.inr ⟨same, UInt32.lt_iff_toNat_lt.mp older⟩)

/-- The second job is submitted so long after the first that the counter of handles went half way
round: it is processed first. -/
theorem younger_first :
    prioritizeThreads ⟨0, 2 ^ 31 + 5⟩ ⟨0, 1⟩ < 0 ∧ ¬ Ordered {⟨0, 1⟩, ⟨0, 2 ^ 31 + 5⟩} := by
  have first : prioritizeThreads ⟨0, 2 ^ 31 + 5⟩ ⟨0, 1⟩ < 0 := by decide
  refine ⟨first, fun ordered => ?_⟩
  have older := ordered.older ⟨0, 1⟩ (Or.inl rfl) ⟨0, 2 ^ 31 + 5⟩ (Or.inr rfl) rfl (by decide)
  exact absurd older (by decide)

end GnomeVfs.JobQueue
