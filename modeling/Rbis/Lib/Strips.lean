import Mathlib.Data.List.Flatten
import Mathlib.Data.Set.Prod
import Mathlib.Order.CompletePartialOrder
import Mathlib.Order.Interval.Set.Disjoint

/-! # Strips laid one after the other

A cursor moves along a line.  Each group of items takes the strip of the line that starts at
the cursor, and the cursor moves to its end; a group without items takes nothing and leaves the
cursor.  `Laid window s groups e` says that the groups were laid so from `s` to `e`, where
`window` is the part of the line an item occupies.  Then no item leaves the line between the two
ends (`Laid.within`), and the items of two groups are apart (`Laid.apart`).  In the plane, items
of one group that are apart across the line give rectangles that are all apart
(`Laid.cells_apart`). -/

namespace Strips

variable {α β : Type*}

inductive Laid (window : α → Set ℕ) : ℕ → List (List α) → ℕ → Prop
  | nil (s : ℕ) : Laid window s [] s
  | skip {s e : ℕ} {groups : List (List α)} (h : Laid window s groups e) :
      Laid window s ([] :: groups) e
  | strip {s n e : ℕ} {g : List α} {groups : List (List α)}
      (hg : ∀ x ∈ g, window x = Set.Ico s (s + n)) (h : Laid window (s + n) groups e) :
      Laid window s (g :: groups) e

namespace Laid

variable {window : α → Set ℕ} {s e : ℕ} {groups : List (List α)}

theorem le (h : Laid window s groups e) : s ≤ e := by
  induction h with
  | nil s => exact le_rfl
  | skip _ ih => exact ih
  | strip _ _ ih => omega

theorem within (h : Laid window s groups e) :
    ∀ g ∈ groups, ∀ x ∈ g, window x ⊆ Set.Ico s e := by
  induction h with
  | nil s => exact fun g hg => absurd hg List.not_mem_nil
  | skip _ ih =>
      intro g hg
      obtain rfl | hg := List.mem_cons.mp hg
      · exact fun x hx => absurd hx List.not_mem_nil
      · exact ih g hg
  | strip hg' h ih =>
      have hle := h.le
      intro g hg x hx
      obtain rfl | hg := List.mem_cons.mp hg
      · rw [hg' x hx]
        apply Set.Ico_subset_Ico_right
        exact hle
      · refine (ih g hg x hx).trans ?_
        apply Set.Ico_subset_Ico_left
        omega

/-- **The items of two groups are apart.** -/
theorem apart (h : Laid window s groups e) :
    groups.Pairwise fun g g' => ∀ x ∈ g, ∀ y ∈ g', Disjoint (window x) (window y) := by
  induction h with
  | nil s => exact List.Pairwise.nil
  | skip _ ih => exact List.Pairwise.cons (fun g' _ x hx => absurd hx List.not_mem_nil) ih
  | strip hg h ih =>
      refine List.Pairwise.cons (fun g' hg' x hx y hy => ?_) ih
      rw [hg x hx]
      refine Set.disjoint_of_subset_right (h.within g' hg' y hy) ?_
      exact Set.Ico_disjoint_Ico_same

theorem cells_apart (h : Laid window s groups e) {across : α → Set β}
    (hg : ∀ g ∈ groups, g.Pairwise fun x y => Disjoint (across x) (across y)) :
    groups.flatten.Pairwise fun x y =>
      Disjoint (window x ×ˢ across x) (window y ×ˢ across y) := by
  rw [List.pairwise_flatten]
  constructor
  · intro g hmem
    refine (hg g hmem).imp fun hd => ?_
    rw [Set.disjoint_prod]
    exact Or.inr hd
  · refine h.apart.imp fun hd x hx y hy => ?_
    rw [Set.disjoint_prod]
    exact Or.inl (hd x hx y hy)

end Laid

end Strips
