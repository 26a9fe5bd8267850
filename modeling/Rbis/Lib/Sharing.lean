import Mathlib.Algebra.GroupWithZero.Nat
import Mathlib.Data.List.Nodup
import Mathlib.Data.List.Pairwise
import Mathlib.Data.List.Perm.Basic
import Mathlib.Logic.Function.Basic

/-! # Blocks shared between a free list and their owners

`Shared blocks free owners held` says that the free blocks and the blocks `held o` of the
owners make up the blocks, each once.  Granting a free block to an owner (`Shared.grant`) and
taking back a block (`Shared.release`) keep the sharing, and of distinct blocks each one is
either free or held by exactly one owner (`Shared.free_or_held`). -/

namespace Sharing

variable {κ α : Type} [DecidableEq κ]

/-! ### Changing what one owner holds -/

theorem flatMap_update_of_notMem (f : κ → List α) {p : κ} (rs : List α) : ∀ {l : List κ}, p ∉ l →
    l.flatMap (Function.update f p rs) = l.flatMap f
  | [], _ => rfl
  | q :: l, h => by
      rw [List.mem_cons, not_or] at h
      rw [List.flatMap_cons, List.flatMap_cons, flatMap_update_of_notMem f rs h.2,
        Function.update_of_ne (Ne.symm h.1)]

theorem exists_rest_of_mem (f : κ → List α) {p : κ} : ∀ {l : List κ}, l.Nodup → p ∈ l →
    ∃ rest, (l.flatMap f).Perm (f p ++ rest) ∧
      ∀ rs, (l.flatMap (Function.update f p rs)).Perm (rs ++ rest)
  | [], _, h => by cases h
  | q :: l, hn, h => by
      rw [List.nodup_cons] at hn
      obtain rfl | h := List.mem_cons.mp h
      · refine ⟨l.flatMap f, by rw [List.flatMap_cons], fun rs => ?_⟩
        rw [List.flatMap_cons, Function.update_self, flatMap_update_of_notMem f rs hn.1]
      · have hne : q ≠ p := fun e => hn.1 (e ▸ h)
        obtain ⟨rest, h1, h2⟩ := exists_rest_of_mem f hn.2 h
        refine ⟨f q ++ rest, ?_, fun rs => ?_⟩
        · rw [List.flatMap_cons]
          exact (h1.append_left _).trans (List.perm_append_comm_assoc _ _ _)
        · rw [List.flatMap_cons, Function.update_of_ne hne]
          exact ((h2 rs).append_left _).trans (List.perm_append_comm_assoc _ _ _)

omit [DecidableEq κ] in
theorem flatMap_sublist {f f' : κ → List α} (h : ∀ p, (f' p).Sublist (f p)) :
    ∀ {l : List κ}, (l.flatMap f').Sublist (l.flatMap f)
  | [] => List.Sublist.refl _
  | p :: l => by
      rw [List.flatMap_cons, List.flatMap_cons]
      exact (h p).append (flatMap_sublist h)

theorem flatMap_restrict_perm (f : κ → List α) {l m : List κ} (hm : m.Nodup) (hl : l.Nodup)
    (hsub : ∀ p ∈ l, p ∈ m) :
    (m.flatMap fun p => if p ∈ l then f p else []).Perm (l.flatMap f) := by
  have hfilter : ∀ m : List κ, (m.flatMap fun p => if p ∈ l then f p else []) =
      (m.filter fun p => p ∈ l).flatMap f := by
    intro m
    induction m with
    | nil => rfl
    | cons q m ih =>
        rw [List.flatMap_cons, ih, List.filter_cons]
        by_cases h : q ∈ l
        · simp [h]
        · simp [h]
  have hperm : (m.filter fun p => p ∈ l).Perm l := by
    refine (List.perm_ext_iff_of_nodup (hm.filter _) hl).mpr fun q => ?_
    rw [List.mem_filter, decide_eq_true_iff]
    exact ⟨fun h => h.2, fun h => ⟨hsub q h, h⟩⟩
  rw [hfilter]
  exact hperm.flatMap_right f

/-! ### The sharing -/

def Shared (blocks free : List α) (owners : List κ) (held : κ → List α) : Prop :=
  (free ++ owners.flatMap held).Perm blocks

variable {blocks free free' : List α} {owners : List κ} {held : κ → List α}

omit [DecidableEq κ] in
theorem Shared.mem_of_free (h : Shared blocks free owners held) {r : α} (hr : r ∈ free) :
    r ∈ blocks := h.mem_iff.mp (List.mem_append_left _ hr)

omit [DecidableEq κ] in
theorem Shared.mem_of_held (h : Shared blocks free owners held) {o : κ} (ho : o ∈ owners) {r : α}
    (hr : r ∈ held o) : r ∈ blocks :=
  h.mem_iff.mp (List.mem_append_right _ (List.mem_flatMap.mpr ⟨o, ho, hr⟩))

omit [DecidableEq κ] in
theorem Shared.nodup (h : Shared blocks free owners held) (hb : blocks.Nodup) :
    free.Nodup ∧ (owners.flatMap held).Nodup ∧ ∀ r ∈ free, ∀ o ∈ owners, r ∉ held o := by
  have hn := List.nodup_append.mp (h.nodup_iff.mpr hb)
  refine ⟨hn.1, hn.2.1, fun r hr o ho hh => ?_⟩
  exact hn.2.2 r hr r (List.mem_flatMap.mpr ⟨o, ho, hh⟩) rfl

omit [DecidableEq κ] in
theorem owner_unique (h : (owners.flatMap held).Nodup) {o o' : κ} (ho : o ∈ owners)
    (ho' : o' ∈ owners) {r : α} (hr : r ∈ held o) (hr' : r ∈ held o') : o = o' := by
  have hsymm : Std.Symm (Function.onFun List.Disjoint held) :=
    ⟨fun _ _ hd _ hx hy => hd hy hx⟩
  have hp := (List.nodup_flatMap.mp h).2
  by_contra hne
  exact hp.forall ho ho' hne hr hr'

omit [DecidableEq κ] in
/-- **Each block is in one place.** -/
theorem Shared.free_or_held (h : Shared blocks free owners held) (hb : blocks.Nodup) {r : α}
    (hr : r ∈ blocks) :
    (r ∈ free ∧ ∀ o ∈ owners, r ∉ held o) ∨ (r ∉ free ∧ ∃! o, o ∈ owners ∧ r ∈ held o) := by
  obtain ⟨_, hheld, hdisj⟩ := h.nodup hb
  obtain hfree | howned := List.mem_append.mp (h.mem_iff.mpr hr)
  · exact Or.inl ⟨hfree, hdisj r hfree⟩
  · obtain ⟨o, ho, hro⟩ := List.mem_flatMap.mp howned
    refine Or.inr ⟨fun hfree => hdisj r hfree o ho hro, o, ⟨ho, hro⟩, ?_⟩
    rintro o' ⟨ho', hro'⟩
    exact owner_unique hheld ho' ho hro' hro

variable [DecidableEq α]

theorem Shared.grant (h : Shared blocks free owners held) (hn : owners.Nodup) {o : κ}
    (ho : o ∈ owners) {r : α} (hr : r ∈ free) :
    Shared blocks (free.erase r) owners (Function.update held o (held o ++ [r])) := by
  obtain ⟨rest, h1, h2⟩ := exists_rest_of_mem held hn ho
  have h2 := h2 (held o ++ [r])
  refine List.perm_iff_count.mpr fun x => ?_
  have e1 := h1.count_eq x
  have e2 := h2.count_eq x
  have e3 := h.count_eq x
  have e4 := (List.perm_cons_erase hr).count_eq x
  simp only [List.count_append, List.count_cons, List.count_nil] at e1 e2 e3 e4 ⊢
  omega

theorem Shared.release (h : Shared blocks free owners held) (hn : owners.Nodup) {o : κ}
    (ho : o ∈ owners) {rs : List α} {r : α} (hr : held o = rs ++ [r])
    (hfree : free'.Perm (r :: free)) : Shared blocks free' owners (Function.update held o rs) := by
  obtain ⟨rest, h1, h2⟩ := exists_rest_of_mem held hn ho
  have h2 := h2 rs
  refine List.perm_iff_count.mpr fun x => ?_
  have e1 := h1.count_eq x
  have e2 := h2.count_eq x
  have e3 := h.count_eq x
  have e4 := hfree.count_eq x
  rw [hr] at e1
  simp only [List.count_append, List.count_cons, List.count_nil] at e1 e2 e3 e4 ⊢
  omega

/-! ### Sums over the owners -/

omit [DecidableEq κ] [DecidableEq α] in
theorem sum_map_filter (f : κ → ℕ) (p : κ → Bool) : ∀ {l : List κ},
    (∀ x ∈ l, p x = false → f x = 0) → ((l.filter p).map f).sum = (l.map f).sum
  | [], _ => rfl
  | x :: l, h => by
      have ih := sum_map_filter f p fun y hy => h y (List.mem_cons_of_mem x hy)
      rw [List.filter_cons]
      cases hx : p x with
      | true => simp [ih]
      | false => simp [ih, h x List.mem_cons_self hx]

omit [DecidableEq α] in
theorem sum_map_of_count_one (f : κ → ℕ) {l m : List κ} (hm : m.Nodup)
    (hone : ∀ x ∈ m, l.count x = 1) (hzero : ∀ x ∈ l, x ∉ m → f x = 0) :
    (l.map f).sum = (m.map f).sum := by
  have hperm : (l.filter fun x => x ∈ m).Perm m := by
    refine List.perm_iff_count.mpr fun x => ?_
    by_cases hx : x ∈ m
    · rw [List.count_filter (by simpa using hx), hone x hx, hm.count, if_pos hx]
    · rw [List.count_eq_zero_of_not_mem hx, List.count_eq_zero_of_not_mem]
      intro hmem
      simp [hx] at hmem
  rw [← sum_map_filter f (fun x => x ∈ m) (by simpa using hzero)]
  exact (hperm.map f).sum_nat

omit [DecidableEq α] in
theorem eq_zero_of_sum_eq (f : κ → ℕ) {l m : List κ} (hl : l.Nodup) (hm : m.Nodup)
    (hzero : ∀ x ∈ l, x ∉ m → f x = 0) (hsum : (l.map f).sum = (m.map f).sum) :
    ∀ x ∈ m, x ∉ l → f x = 0 := by
  have hperm : (l.filter (fun x => x ∈ m) ++ m.filter fun x => x ∉ l).Perm m := by
    refine List.perm_iff_count.mpr fun x => ?_
    rw [List.count_append, (hl.filter _).count, (hm.filter _).count, hm.count]
    by_cases hx : x ∈ m
    · by_cases hx' : x ∈ l
      · simp [hx, hx']
      · simp [hx, hx']
    · simp [hx]
  have hsplit := (hperm.map f).sum_nat
  rw [List.map_append, List.sum_append, sum_map_filter f (fun x => x ∈ m) (by simpa using hzero),
    hsum] at hsplit
  intro x hx hx'
  have hmem : x ∈ m.filter fun x => x ∉ l := List.mem_filter.mpr ⟨hx, by simpa using hx'⟩
  have hrest : ((m.filter fun x => x ∉ l).map f).sum = 0 := by omega
  exact List.sum_eq_zero_iff_forall_eq_nat.mp hrest _ (List.mem_map_of_mem hmem)

end Sharing
