import Mathlib.Data.List.FinRange
import Mathlib.Data.List.OfFn
import Mathlib.Logic.Equiv.Basic
import Mathlib.Tactic.Common

/-! # Vectors in blocks

A record of `n` parts with `k` components each is laid out as a vector of `k` blocks: the first
components of all the parts, then their second ones, and so on (`join`).  Permuting the parts
permutes every block (`permute_join`), and the vector determines the components
(`join_injective`).

An encoder gives every part its components, possibly in a way that depends on the position of
the part.  It commutes with all the permutations of a record exactly if every part of it gets the
same components in every position (`equivariant_iff`). -/

namespace Blocks

variable {α ρ : Type*} {n k : ℕ}

/-- The vector of the components `b`. -/
def join (b : Fin n → Fin k → α) : List α :=
  (List.ofFn fun c => List.ofFn fun i => b i c).flatten

/-- Permute the first `n` entries. -/
def permuteBlock (π : Equiv.Perm (Fin n)) (v : List α) : List α :=
  (List.finRange n).filterMap fun i => v[(π i : ℕ)]?

/-- Permute each of the first `k` blocks of length `n`. -/
def permute (π : Equiv.Perm (Fin n)) : ℕ → List α → List α
  | 0, v => v
  | k + 1, v => permuteBlock π v ++ permute π k (v.drop n)

theorem join_succ (b : Fin n → Fin (k + 1) → α) :
    join b = List.ofFn (fun i => b i 0) ++ join fun i c => b i c.succ := by
  unfold join
  rw [List.ofFn_succ, List.flatten_cons]

theorem permuteBlock_append (π : Equiv.Perm (Fin n)) (f : Fin n → α) (l : List α) :
    permuteBlock π (List.ofFn f ++ l) = List.ofFn (f ∘ π) := by
  have hentry : ∀ i, (List.ofFn f ++ l)[(π i : ℕ)]? = some (f (π i)) := by
    intro i
    have hlt : (π i : ℕ) < (List.ofFn f).length := by
      rw [List.length_ofFn]
      exact (π i).isLt
    rw [List.getElem?_append_left hlt, List.getElem?_eq_getElem hlt, List.getElem_ofFn]
  unfold permuteBlock
  simp only [hentry]
  rw [List.filterMap_eq_map', List.ofFn_eq_map]
  rfl

/-- **Permuting the parts** permutes the blocks. -/
theorem permute_join (π : Equiv.Perm (Fin n)) (b : Fin n → Fin k → α) :
    permute π k (join b) = join (b ∘ π) := by
  induction k with
  | zero => rfl
  | succ k ih =>
      have hdrop : (List.ofFn (fun i => b i 0) ++ join fun i c => b i c.succ).drop n =
          join fun i c => b i c.succ := List.drop_left' List.length_ofFn
      rw [join_succ, join_succ, permute, permuteBlock_append, hdrop, ih]
      rfl

theorem join_injective : Function.Injective (join : (Fin n → Fin k → α) → List α) := by
  induction k with
  | zero => exact fun b b' _ => funext fun i => funext fun c => c.elim0
  | succ k ih =>
      intro b b' h
      rw [join_succ, join_succ] at h
      obtain ⟨hfirst, hrest⟩ := List.append_inj h (by rw [List.length_ofFn, List.length_ofFn])
      have hzero : (fun i => b i 0) = fun i => b' i 0 := List.ofFn_injective hfirst
      have hsucc : (fun (i : Fin n) (c : Fin k) => b i c.succ) = fun i c => b' i c.succ := ih hrest
      funext i c
      refine Fin.cases (congrFun hzero i) (fun c => ?_) c
      exact congrFun (congrFun hsucc i) c

/-- **Equivariance.** An encoder that may depend on the position commutes with the permutations of
the record `x` exactly if every part is encoded alike in all the positions. -/
theorem equivariant_iff (e : Fin n → ρ → Fin k → α) (x : Fin n → ρ) :
    (∀ π : Equiv.Perm (Fin n),
      join (fun i => e i (x (π i))) = permute π k (join fun i => e i (x i))) ↔
      ∀ i j, e i (x j) = e j (x j) := by
  constructor
  · intro h i j
    have hswap := h (Equiv.swap i j)
    rw [permute_join] at hswap
    have hat := congrFun (join_injective hswap) i
    simpa only [Function.comp_apply, Equiv.swap_apply_left] using hat
  · intro h π
    rw [permute_join]
    exact congrArg join (funext fun i => h i (π i))

theorem exists_uniform_iff [Nonempty (Fin n)] (e : Fin n → ρ → Fin k → α) :
    (∃ f : ρ → Fin k → α, ∀ x : Fin n → ρ, join (fun i => e i (x i)) = join (f ∘ x)) ↔
      ∀ i j r, e i r = e j r := by
  constructor
  · rintro ⟨f, hf⟩ i j r
    have hconst := join_injective (hf fun _ => r)
    exact (congrFun hconst i).trans (congrFun hconst j).symm
  · intro h
    obtain ⟨i₀⟩ := ‹Nonempty (Fin n)›
    exact ⟨e i₀, fun x => congrArg join (funext fun i => h i i₀ (x i))⟩

end Blocks
