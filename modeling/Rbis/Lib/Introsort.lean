import Rbis.Lib.Containers

/-! # The introsort of libstdc++

`std::sort` of libstdc++ partitions the ranges of more than sixteen elements around the median of
three and ends with an insertion sort of the whole.  Up to sixteen elements the insertion sort does
all the work, and equivalent elements keep their order (`stableTo_introsort`); beyond that the
partitions exchange them.  The switch to a heap sort, for ranges that were partitioned too often,
is left out: such ranges are left to the insertion sort. -/

namespace Cxx

namespace StdSort

variable {α : Type}

/-- `std::iter_swap`. -/
def swap (l : List α) (i j : ℕ) : List α :=
  match l[i]?, l[j]? with
  | some a, some b => (l.set i b).set j a
  | _, _ => l

/-- The position `__move_median_to_first` exchanges with the first one: the one of the median. -/
def median (lt : α → α → Bool) (l : List α) (i j k : ℕ) : ℕ :=
  match l[i]?, l[j]?, l[k]? with
  | some a, some b, some c =>
      if lt a b then if lt b c then j else if lt a c then k else i
      else if lt a c then i else if lt b c then k else j
  | _, _, _ => i

/-- `__unguarded_partition`: the range after it, and where it is cut. -/
def unguardedPartition (lt : α → α → Bool) (pivot : α) : ℕ → List α → ℕ → ℕ → List α × ℕ
  | 0, l, first, _ => (l, first)
  | n + 1, l, first, last =>
      let first := first + ((l.drop first).takeWhile fun x => lt x pivot).length
      let last := last - 1 - ((l.take last).reverse.takeWhile fun x => lt pivot x).length
      if first < last then unguardedPartition lt pivot n (swap l first last) (first + 1) last
      else (l, first)

/-- `__introsort_loop` on the range from `first` to `last`. -/
def introsortLoop (lt : α → α → Bool) : ℕ → ℕ → ℕ → List α → List α
  | 0, _, _, l => l
  | depthLimit + 1, first, last, l =>
      if last - first ≤ 16 then l
      else
        let mid := first + (last - first) / 2
        let l := swap l first (median lt l (first + 1) mid (last - 1))
        match l[first]? with
        | none => l
        | some pivot =>
            let (l, cut) := unguardedPartition lt pivot (last - first) l (first + 1) last
            introsortLoop lt depthLimit first cut (introsortLoop lt depthLimit cut last l)

/-- `__sort`. -/
def introsortList (lt : α → α → Bool) (l : List α) : List α :=
  insertionSort lt (introsortLoop lt (2 * l.length.log2) 0 l.length l)

theorem swap_perm (l : List α) (i j : ℕ) : (swap l i j).Perm l := by
  unfold swap
  split
  · next a b ha hb =>
      obtain ⟨hi, rfl⟩ := List.getElem?_eq_some_iff.mp ha
      obtain ⟨hj, rfl⟩ := List.getElem?_eq_some_iff.mp hb
      exact List.set_set_perm hi hj
  · exact List.Perm.refl l

theorem unguardedPartition_perm (lt : α → α → Bool) (pivot : α) (n : ℕ) (l : List α)
    (first last : ℕ) : (unguardedPartition lt pivot n l first last).1.Perm l := by
  induction n generalizing l first last with
  | zero => exact List.Perm.refl l
  | succ n ih =>
      unfold unguardedPartition
      dsimp only
      split
      · exact (ih _ _ _).trans (swap_perm l _ _)
      · exact List.Perm.refl l

theorem introsortLoop_perm (lt : α → α → Bool) (n first last : ℕ) (l : List α) :
    (introsortLoop lt n first last l).Perm l := by
  induction n generalizing l first last with
  | zero => exact List.Perm.refl l
  | succ n ih =>
      unfold introsortLoop
      split
      · exact List.Perm.refl l
      · dsimp only
        split
        · exact swap_perm l _ _
        · exact (ih _ _ _).trans ((ih _ _ _).trans
            ((unguardedPartition_perm lt _ _ _ _ _).trans (swap_perm l _ _)))

/-- The sort of libstdc++ is an instance. -/
def introsort : StdSort α where
  sort := introsortList
  perm := fun lt l => (insertionSort_perm lt _).trans (introsortLoop_perm lt _ _ _ l)
  sorted := fun lt l h => insertionSort_pairwise
    (h.of_subset fun _ ha => (introsortLoop_perm lt _ _ _ l).mem_iff.mp ha)

/-! ### The order of equivalent elements -/

/-- Equivalent elements keep their order in ranges of `N` elements at most. -/
def StableTo (S : StdSort α) (N : ℕ) : Prop :=
  ∀ lt l, l.length ≤ N → StrictWeakOn lt l → ∀ a b, [a, b].Sublist l → Incomparable lt a b →
    [a, b].Sublist (S.sort lt l)

theorem StableTo.mono {S : StdSort α} {N M : ℕ} (h : S.StableTo N) (hle : M ≤ N) : S.StableTo M :=
  fun lt l hl => h lt l (hl.trans hle)

theorem sublist_insertBy (lt : α → α → Bool) (a : α) (l : List α) :
    l.Sublist (insertBy lt a l) := by
  induction l with
  | nil => exact List.nil_sublist _
  | cons b l ih =>
      unfold insertBy
      split
      · exact ih.cons_cons b
      · exact List.sublist_cons_self a _

/-- An element is inserted before those equivalent to it. -/
theorem pair_sublist_insertBy {lt : α → α → Bool} {a b : α} {l : List α}
    (h : lt b a = false) (hb : b ∈ l) (hw : StrictWeakOn lt (a :: l))
    (hs : l.Pairwise fun a b => lt b a = false) : [a, b].Sublist (insertBy lt a l) := by
  induction l with
  | nil => cases hb
  | cons c l ih =>
      obtain ⟨hc, hl⟩ := List.pairwise_cons.mp hs
      unfold insertBy
      cases hca : lt c a with
      | false =>
          rw [if_neg Bool.false_ne_true]
          exact (List.singleton_sublist.mpr hb).cons_cons a
      | true =>
          rw [if_pos rfl]
          obtain rfl | hb := List.mem_cons.mp hb
          · rw [h] at hca
            cases hca
          · refine (ih hb (hw.of_subset fun x hx => ?_) hl).cons c
            obtain rfl | hx := List.mem_cons.mp hx
            · exact List.mem_cons_self
            · exact List.mem_cons_of_mem _ (List.mem_cons_of_mem _ hx)

theorem pair_sublist_insertionSort {lt : α → α → Bool} {a b : α} {l : List α}
    (hw : StrictWeakOn lt l) (hab : [a, b].Sublist l) (h : lt b a = false) :
    [a, b].Sublist (insertionSort lt l) := by
  induction l with
  | nil => cases hab
  | cons c l ih =>
      have hwl : StrictWeakOn lt l := hw.of_subset fun x hx => List.mem_cons_of_mem c hx
      have hperm := insertionSort_perm lt l
      cases hab with
      | cons _ hab => exact (ih hwl hab).trans (sublist_insertBy lt c _)
      | cons_cons _ hb =>
          have hb := hperm.mem_iff.mpr (List.singleton_sublist.mp hb)
          refine pair_sublist_insertBy h hb (hw.of_subset fun x hx => ?_)
            (insertionSort_pairwise hwl)
          obtain rfl | hx := List.mem_cons.mp hx
          · exact List.mem_cons_self
          · exact List.mem_cons_of_mem _ (hperm.mem_iff.mp hx)

/-- **libstdc++ keeps the order** of equivalent elements in short ranges. -/
theorem stableTo_introsort : (introsort : StdSort α).StableTo 16 := by
  intro lt l hl hw a b hab hinc
  have hsame : introsortLoop lt (2 * l.length.log2) 0 l.length l = l := by
    cases 2 * l.length.log2 with
    | zero => rfl
    | succ n =>
        unfold introsortLoop
        rw [if_pos (by omega)]
  show [a, b].Sublist (insertionSort lt _)
  rw [hsame]
  exact pair_sublist_insertionSort hw hab hinc.2

/-- Twenty equivalent elements. -/
example : introsort.sort (fun _ _ : ℕ => false) (List.range 20) =
    [10, 19, 18, 17, 16, 15, 14, 13, 12, 11, 0, 9, 8, 7, 6, 5, 4, 3, 2, 1] := by decide

end StdSort

end Cxx
