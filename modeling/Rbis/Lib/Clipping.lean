import Mathlib.Algebra.Order.Field.Basic
import Mathlib.Order.Interval.Set.Basic
import Mathlib.Tactic.Common

/-! # Clipping an interval of parameters

The points of a line that lie on one side of another line are those whose parameter `t` meets a
linear constraint `num ≤ t * denom` (`halfLine`).  A clipping algorithm keeps an interval of
parameters and narrows it with one constraint after the other.  `Represents r s` says that its
state `r` stands for the set `s` of the parameters that are left: `none` for the empty set, and
otherwise the two ends of a nonempty interval.  The rules say which state represents the set
after one more constraint, for the three kinds of constraints. -/

namespace Clipping

/-! ### Intervals and the sets they stand for -/

section Order

variable {K : Type*} [LinearOrder K] {lo hi x : K} {s : Set K} {r : Option (K × K)}

/-- The state `r` stands for the parameters `s`. -/
def Represents (r : Option (K × K)) (s : Set K) : Prop :=
  match r with
  | none => s = ∅
  | some (lo, hi) => lo ≤ hi ∧ s = Set.Icc lo hi

theorem represents_Icc (h : lo ≤ hi) : Represents (some (lo, hi)) (Set.Icc lo hi) := ⟨h, rfl⟩

theorem Represents.isSome_iff (h : Represents r s) : r.isSome = true ↔ s.Nonempty := by
  cases r with
  | none =>
      obtain rfl : s = ∅ := h
      simp
  | some i =>
      obtain ⟨lo, hi⟩ := i
      obtain ⟨hle, rfl⟩ := h
      exact ⟨fun _ => Set.nonempty_Icc.mpr hle, fun _ => rfl⟩

theorem Represents.bind {k : K × K → Option (K × K)} {s' : Set K} (h : Represents r s)
    (hs : s' ⊆ s) (hk : ∀ i, Represents (some i) s → Represents (k i) s') :
    Represents (r >>= k) s' := by
  cases r with
  | none =>
      obtain rfl : s = ∅ := h
      exact Set.subset_empty_iff.mp hs
  | some i => exact hk i h

theorem Represents.inter_Ici (h : Represents (some (lo, hi)) s) :
    Represents (if hi < x then none else some (max lo x, hi)) (s ∩ Set.Ici x) := by
  obtain ⟨hle, rfl⟩ := h
  split
  · next hlt =>
      ext t
      constructor
      · rintro ⟨⟨_, hhi⟩, hx⟩
        exact absurd (lt_of_lt_of_le hlt hx) (not_lt.mpr hhi)
      · exact fun h => absurd h (Set.notMem_empty t)
  · next hlt =>
      refine ⟨max_le hle (not_lt.mp hlt), ?_⟩
      ext t
      simp only [Set.mem_inter_iff, Set.mem_Icc, Set.mem_Ici, max_le_iff]
      tauto

theorem Represents.inter_Iic (h : Represents (some (lo, hi)) s) :
    Represents (if x < lo then none else some (lo, min hi x)) (s ∩ Set.Iic x) := by
  obtain ⟨hle, rfl⟩ := h
  split
  · next hlt =>
      ext t
      constructor
      · rintro ⟨⟨hlo, _⟩, hx⟩
        exact absurd (lt_of_le_of_lt hx hlt) (not_lt.mpr hlo)
      · exact fun h => absurd h (Set.notMem_empty t)
  · next hlt =>
      refine ⟨le_min hle (not_lt.mp hlt), ?_⟩
      ext t
      simp only [Set.mem_inter_iff, Set.mem_Icc, Set.mem_Iic, le_min_iff]
      tauto

end Order

/-! ### Linear constraints -/

section Field

variable {K : Type*} [Field K] [LinearOrder K] {num denom lo hi : K} {s : Set K}

/-- The parameters that meet the constraint. -/
def halfLine (num denom : K) : Set K := {t | num ≤ t * denom}

@[simp] theorem mem_halfLine {t : K} : t ∈ halfLine num denom ↔ num ≤ t * denom := Iff.rfl

theorem Represents.inter_zero (h : Represents (some (lo, hi)) s) :
    Represents (if num ≤ 0 then some (lo, hi) else none) (s ∩ halfLine num 0) := by
  split
  · next hnum =>
      have hall : halfLine num 0 = Set.univ :=
        Set.eq_univ_of_forall fun t => by rwa [mem_halfLine, mul_zero]
      rw [hall, Set.inter_univ]
      exact h
  · next hnum =>
      have hnone : halfLine num 0 = ∅ :=
        Set.eq_empty_of_forall_notMem fun t => by rwa [mem_halfLine, mul_zero]
      rw [hnone]
      exact Set.inter_empty s

variable [IsStrictOrderedRing K]

theorem halfLine_of_pos (h : 0 < denom) : halfLine num denom = Set.Ici (num / denom) := by
  ext t
  exact (div_le_iff₀ h).symm

theorem halfLine_of_neg (h : denom < 0) : halfLine num denom = Set.Iic (num / denom) := by
  ext t
  exact (le_div_iff_of_neg h).symm

end Field

end Clipping
