import Mathlib.Algebra.BigOperators.Group.List.Lemmas
import Mathlib.Data.Int.CardIntervalMod
import Mathlib.Data.List.Rotate
import Mathlib.Data.Nat.Count

/-! # Taking turns

A queue is served from its front, and who was served goes to its end.  `served order n a` says how
often `a` is served in `n` turns from the queue `order`.  The numbers of two parties differ by one
at most: `a` at position `j` of a queue of `k` is served `n / k` times, and once more if `j` is
below `n % k` (`served_of_getElem?`). -/

namespace Turns

variable {α : Type} [DecidableEq α] {order : List α} {a : α}

def served (order : List α) (n : ℕ) (a : α) : ℕ :=
  n.count fun i => (order.rotate i).head? = some a

@[simp] theorem served_zero : served order 0 a = 0 := Nat.count_zero _

theorem served_succ (n : ℕ) : served order (n + 1) a =
    served order n a + if (order.rotate n).head? = some a then 1 else 0 := Nat.count_succ ..

omit [DecidableEq α] in
theorem head?_rotate (h : order ≠ []) (i : ℕ) :
    (order.rotate i).head? = order[i % order.length]? := by
  rw [← List.rotate_mod, List.head?_rotate (Nat.mod_lt i (List.length_pos_iff.mpr h))]

theorem served_of_getElem? (hn : order.Nodup) {j : ℕ} (hj : order[j]? = some a) (n : ℕ) :
    served order n a = n / order.length + if j < n % order.length then 1 else 0 := by
  obtain ⟨hlt, -⟩ := List.getElem?_eq_some_iff.mp hj
  have hturn : ∀ i, (order.rotate i).head? = some a ↔ i ≡ j [MOD order.length] := by
    intro i
    have hi : i % order.length < order.length := Nat.mod_lt i (by omega)
    rw [head?_rotate (List.length_pos_iff.mp (by omega)), ← hj, Nat.ModEq, Nat.mod_eq_of_lt hlt]
    exact List.getElem?_inj hi hn
  unfold served
  simp only [hturn]
  rw [Nat.count_modEq_card (r := order.length) n (by omega), Nat.mod_eq_of_lt hlt]

omit [DecidableEq α] in
theorem sum_map_succ {f g : α → ℕ} {b : α} : ∀ {l : List α}, l.Nodup → b ∈ l → g b = f b + 1 →
    (∀ a ∈ l, a ≠ b → g a = f a) → (l.map g).sum = (l.map f).sum + 1
  | c :: l, hn, hb, hsucc, hne => by
      obtain ⟨hc, hl⟩ := List.nodup_cons.mp hn
      rw [List.map_cons, List.map_cons, List.sum_cons, List.sum_cons]
      rcases List.mem_cons.mp hb with rfl | hb
      · have hrest : l.map g = l.map f := List.map_congr_left fun a ha =>
          hne a (List.mem_cons_of_mem _ ha) fun e => hc (e ▸ ha)
        rw [hrest, hsucc]
        omega
      · have hcb : c ≠ b := fun e => hc (e ▸ hb)
        rw [hne c List.mem_cons_self hcb,
          sum_map_succ hl hb hsucc fun a ha => hne a (List.mem_cons_of_mem c ha), Nat.add_assoc]

theorem sum_served (hn : order.Nodup) (h : order ≠ []) (n : ℕ) :
    (order.map (served order n)).sum = n := by
  induction n with
  | zero =>
      refine List.sum_eq_zero fun m hm => ?_
      obtain ⟨a, -, rfl⟩ := List.mem_map.mp hm
      exact served_zero
  | succ n ih =>
      obtain ⟨b, hb⟩ : ∃ b, (order.rotate n).head? = some b := by
        rw [← Option.isSome_iff_exists, List.isSome_head?]
        exact mt List.rotate_eq_nil_iff.mp h
      have hmem : b ∈ order := List.mem_rotate.mp (List.mem_of_head? hb)
      rw [sum_map_succ hn hmem (by rw [served_succ, hb, if_pos rfl]) fun a _ hne => ?_, ih]
      rw [served_succ, hb, if_neg fun e => hne (Option.some_inj.mp e).symm, Nat.add_zero]

end Turns
