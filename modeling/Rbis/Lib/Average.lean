import Mathlib.Algebra.Order.BigOperators.Group.Finset
import Mathlib.Algebra.Order.Field.Basic
import Mathlib.Tactic.Common

/-! # Averages of scores

The average of finitely many scores, each at most one.  It is at most one, it is one exactly if
every score is, and it does not decrease when the scores do not.  Sums are over `range n`, the
index set of a counting loop.

A running average is updated with each new value; it is the average of the values
(`foldl_running`).  Where the average is rounded at each value and the rounded average is what
the next one starts from, it is the rounded average of the values as long as no rounding moves the
one that follows (`foldl_rounded_iff`). -/

namespace Average

open Finset

variable {𝕜 : Type*} [Field 𝕜] [LinearOrder 𝕜] [IsStrictOrderedRing 𝕜] {n : ℕ} {f g : ℕ → 𝕜}

theorem sum_le (hf : ∀ i < n, f i ≤ 1) : ∑ i ∈ range n, f i ≤ n := by
  have h : ∑ i ∈ range n, f i ≤ ∑ _i ∈ range n, (1 : 𝕜) :=
    sum_le_sum fun i hi => hf i (mem_range.mp hi)
  simpa using h

theorem sum_eq_iff (hf : ∀ i < n, f i ≤ 1) : ∑ i ∈ range n, f i = n ↔ ∀ i < n, f i = 1 := by
  have h := sum_eq_sum_iff_of_le (s := range n) (f := f) (g := fun _ => (1 : 𝕜))
    fun i hi => hf i (mem_range.mp hi)
  simpa using h

theorem le_one (hn : n ≠ 0) (hf : ∀ i < n, f i ≤ 1) : (∑ i ∈ range n, f i) / n ≤ 1 := by
  have hpos : (0 : 𝕜) < n := Nat.cast_pos.mpr (Nat.pos_of_ne_zero hn)
  rw [div_le_one hpos]
  exact sum_le hf

/-- **The average is one** exactly if every score is. -/
theorem eq_one_iff (hn : n ≠ 0) (hf : ∀ i < n, f i ≤ 1) :
    (∑ i ∈ range n, f i) / n = 1 ↔ ∀ i < n, f i = 1 := by
  have hne : (n : 𝕜) ≠ 0 := Nat.cast_ne_zero.mpr hn
  rw [div_eq_one_iff_eq hne, sum_eq_iff hf]

theorem mono (hfg : ∀ i < n, f i ≤ g i) :
    (∑ i ∈ range n, f i) / n ≤ (∑ i ∈ range n, g i) / (n : 𝕜) := by
  have h : ∑ i ∈ range n, f i ≤ ∑ i ∈ range n, g i :=
    sum_le_sum fun i hi => hfg i (mem_range.mp hi)
  exact div_le_div_of_nonneg_right h (Nat.cast_nonneg n)

theorem nonneg_iff (hn : n ≠ 0) :
    0 ≤ (∑ i ∈ range n, f i) / (n : 𝕜) ↔ 0 ≤ ∑ i ∈ range n, f i := by
  have hpos : (0 : 𝕜) < n := Nat.cast_pos.mpr (Nat.pos_of_ne_zero hn)
  rw [le_div_iff₀ hpos, zero_mul]

/-! ### Running averages -/

section Running

variable {𝕂 : Type*} [Field 𝕂] [CharZero 𝕂]

/-- A new value: the number of values and their average. -/
def running (acc : ℕ × 𝕂) (v : 𝕂) : ℕ × 𝕂 := (acc.1 + 1, (acc.2 * acc.1 + v) / (acc.1 + 1))

theorem foldl_running_mul (l : List 𝕂) (acc : ℕ × 𝕂) :
    (l.foldl running acc).1 = acc.1 + l.length ∧
      (l.foldl running acc).2 * (l.foldl running acc).1 = acc.2 * acc.1 + l.sum := by
  induction l generalizing acc with
  | nil => simp
  | cons v l ih =>
      obtain ⟨h1, h2⟩ := ih (running acc v)
      have hne : ((acc.1 : 𝕂) + 1) ≠ 0 := Nat.cast_add_one_ne_zero acc.1
      have hstep : (running acc v).2 * (running acc v).1 = acc.2 * acc.1 + v := by
        unfold running
        push_cast
        exact div_mul_cancel₀ _ hne
      rw [List.foldl_cons, List.length_cons, List.sum_cons]
      refine ⟨?_, ?_⟩
      · rw [h1]
        unfold running
        omega
      · rw [h2, hstep, add_assoc]

theorem foldl_running {l : List 𝕂} (hl : l ≠ []) (x : 𝕂) :
    (l.foldl running (0, x)).2 = l.sum / l.length := by
  obtain ⟨h1, h2⟩ := foldl_running_mul l (0, x)
  have hne : (l.length : 𝕂) ≠ 0 :=
    Nat.cast_ne_zero.mpr (List.length_pos_of_ne_nil hl).ne'
  rw [h1] at h2
  simp only [Nat.cast_zero, mul_zero, zero_add] at h2
  exact eq_div_of_mul_eq hne h2

end Running

/-! ### Rounding at each value -/

section Rounding

variable {𝕂 : Type*} [Field 𝕂] (r : 𝕂 → 𝕂)

/-- The average of the values. -/
def mean (l : List 𝕂) : 𝕂 := l.sum / l.length

/-- A new value, with the average rounded by `r`. -/
def rounded (acc : ℕ × 𝕂) (v : 𝕂) : ℕ × 𝕂 := (acc.1 + 1, r ((acc.2 * acc.1 + v) / (acc.1 + 1)))

/-- The average of the values so far can be rounded before `v` is added. -/
def Neutral (p : List 𝕂) (v : 𝕂) : Prop :=
  r ((r (mean p) * p.length + v) / (p.length + 1)) = r (mean (p ++ [v]))

theorem foldl_rounded_fst (p : List 𝕂) (x : 𝕂) : (p.foldl (rounded r) (0, x)).1 = p.length := by
  induction p using List.reverseRecOn with
  | nil => rfl
  | append_singleton p v ih =>
      rw [List.foldl_append, List.length_append]
      exact congrArg (· + 1) ih

theorem foldl_rounded_concat (p : List 𝕂) (v x : 𝕂) :
    ((p ++ [v]).foldl (rounded r) (0, x)).2 =
      r (((p.foldl (rounded r) (0, x)).2 * p.length + v) / (p.length + 1)) := by
  rw [List.foldl_append, List.foldl_cons, List.foldl_nil, rounded, foldl_rounded_fst]

theorem foldl_rounded_concat_iff {p : List 𝕂} {x : 𝕂} (v : 𝕂)
    (hp : p ≠ [] → (p.foldl (rounded r) (0, x)).2 = r (mean p)) :
    ((p ++ [v]).foldl (rounded r) (0, x)).2 = r (mean (p ++ [v])) ↔ Neutral r p v := by
  rw [foldl_rounded_concat, Neutral]
  rcases eq_or_ne p [] with rfl | hne
  · simp
  · rw [hp hne]

/-- **The rounded average of every prefix** is that of its values exactly if no rounding moves the
next average. -/
theorem foldl_rounded_iff (l : List 𝕂) (x : 𝕂) :
    (∀ p, p <+: l → p ≠ [] → (p.foldl (rounded r) (0, x)).2 = r (mean p)) ↔
      ∀ p v, p ++ [v] <+: l → Neutral r p v := by
  constructor
  · intro h p v hpv
    refine (foldl_rounded_concat_iff r v ?_).mp (h _ hpv (by simp))
    exact h p ((List.prefix_append p [v]).trans hpv)
  · intro h p
    induction p using List.reverseRecOn with
    | nil => exact fun _ hne => absurd rfl hne
    | append_singleton p v ih =>
        intro hpv _
        refine (foldl_rounded_concat_iff r v ?_).mpr (h p v hpv)
        exact ih ((List.prefix_append p [v]).trans hpv)

end Rounding

end Average
