import Mathlib.Algebra.BigOperators.Intervals
import Mathlib.Algebra.Order.BigOperators.Group.Finset
import Mathlib.Algebra.Order.Group.Abs
import Mathlib.Order.Bounds.Basic

/-! # The Lindley recursion

The backlog of a queue that gains `d t` in slot `t`, a negative `d t` being more service than
arrivals, and cannot fall below zero.  Slots are counted from one.  The recursion is solved: the
backlog after slot `n` is the largest of zero and the sums of `d` over the intervals that end in
slot `n` (`isGreatest_backlog`). -/

namespace Lindley

open Finset

variable {𝕜 : Type*} [AddCommGroup 𝕜] [LinearOrder 𝕜]

/-- The backlog after `n` slots of an initially empty queue. -/
def backlog (d : ℕ → 𝕜) : ℕ → 𝕜
  | 0 => 0
  | n + 1 => max (backlog d n + d (n + 1)) 0

variable (d : ℕ → 𝕜) (n : ℕ)

@[simp] theorem backlog_zero : backlog d 0 = 0 := rfl

theorem backlog_succ : backlog d (n + 1) = max (backlog d n + d (n + 1)) 0 := rfl

theorem backlog_nonneg : 0 ≤ backlog d n := by
  cases n with
  | zero => exact le_refl 0
  | succ n => exact le_max_right _ _

/-- The sums of `d` over the intervals that end in slot `n`. -/
def endingSums : Set 𝕜 := {x | ∃ k, 1 ≤ k ∧ k ≤ n ∧ x = ∑ t ∈ Icc k n, d t}

theorem backlog_mem : backlog d n ∈ insert 0 (endingSums d n) := by
  induction n with
  | zero => exact Or.inl rfl
  | succ n ih =>
      rw [backlog_succ]
      rcases max_choice (backlog d n + d (n + 1)) 0 with h | h
      · rw [h]
        right
        rcases ih with h0 | ⟨k, h1, hk, hsum⟩
        · exact ⟨n + 1, by omega, le_refl _, by rw [h0, Icc_self, sum_singleton, zero_add]⟩
        · exact ⟨k, h1, by omega, by rw [hsum, sum_Icc_succ_top (by omega) d]⟩
      · rw [h]
        exact Or.inl rfl

variable [IsOrderedAddMonoid 𝕜]

theorem endingSums_le {x : 𝕜} (hx : x ∈ endingSums d n) : x ≤ backlog d n := by
  induction n generalizing x with
  | zero =>
      obtain ⟨k, h1, h0, -⟩ := hx
      omega
  | succ n ih =>
      obtain ⟨k, h1, hk, rfl⟩ := hx
      rw [backlog_succ, sum_Icc_succ_top hk d]
      apply le_max_of_le_left
      have hsum : ∑ t ∈ Icc k n, d t ≤ backlog d n := by
        rcases Nat.lt_or_ge n k with hlt | hle
        · rw [Icc_eq_empty (by omega), sum_empty]
          exact backlog_nonneg d n
        · exact ih ⟨k, h1, hle, rfl⟩
      exact add_le_add_left hsum _

/-- **The solution of the recursion.** -/
theorem isGreatest_backlog : IsGreatest (insert 0 (endingSums d n)) (backlog d n) := by
  refine ⟨backlog_mem d n, ?_⟩
  rintro x (rfl | hx)
  · exact backlog_nonneg d n
  · exact endingSums_le d n hx

theorem sum_le_backlog : ∑ t ∈ Icc 1 n, d t ≤ backlog d n := by
  cases n with
  | zero => exact le_of_eq (by simp)
  | succ n => exact endingSums_le d (n + 1) ⟨1, le_refl 1, by omega, rfl⟩

end Lindley
