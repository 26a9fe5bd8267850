import Mathlib.Data.Finset.Card
import Mathlib.Data.Finset.Insert
import Mathlib.Data.List.Sort
import Mathlib.Data.Rat.Defs
import Mathlib.Algebra.Order.Ring.Unbundled.Rat
import Mathlib.Tactic.Common

/-! # Containers and numbers of the C++ standard library

* `UMap κ ν` models `std::unordered_map`: a finite set of keys and a lookup, with the
  agreement of the two as a field.  `set` is assignment through `operator[]`, `touch` is the
  read through `operator[]`, which inserts the default value for a missing key.
* `emplace` models insertion into a `std::set`, kept as a strictly increasing list.
* `StdSort α` models `std::sort`: any function that returns a permutation of its input and,
  when the comparison is a strict weak ordering on the elements, returns it sorted.  The
  order of equivalent elements is left open, as the standard leaves it open.
  `StdSort.insertion` is an executable instance.
* `Dbl` models a floating-point value computed with exact arithmetic: a rational, or the
  undefined quotient of a division by zero, unequal to everything and unordered. -/

namespace Cxx

/-! ### `std::unordered_map` -/

/-- A finite map: its keys and its lookup agree. -/
structure UMap (κ ν : Type) where
  keys : Finset κ
  get? : κ → Option ν
  mem_keys : ∀ k, k ∈ keys ↔ (get? k).isSome = true

namespace UMap

variable {κ ν : Type}

/-- The map without entries (`clear`). -/
def empty : UMap κ ν := ⟨∅, fun _ => none, by simp⟩

/-- `size`. -/
def size (m : UMap κ ν) : ℕ := m.keys.card

/-- Lookup with a default, without inserting (`find`). -/
def getD (m : UMap κ ν) (k : κ) (d : ν) : ν := (m.get? k).getD d

variable [DecidableEq κ]

/-- `m[k] = v`. -/
def set (m : UMap κ ν) (k : κ) (v : ν) : UMap κ ν where
  keys := insert k m.keys
  get? := fun k' => if k' = k then some v else m.get? k'
  mem_keys := by
    intro k'
    by_cases h : k' = k
    · simp [h]
    · simp [h, m.mem_keys]

/-- The insertion made by reading `m[k]`: a missing key gets the default value. -/
def touch (m : UMap κ ν) (k : κ) (d : ν) : UMap κ ν :=
  match m.get? k with
  | some _ => m
  | none => m.set k d

omit [DecidableEq κ] in
/-- Overwrite every value (`for (auto& [k, v] : m) v = f(v)`). -/
def mapValues (m : UMap κ ν) (f : ν → ν) : UMap κ ν where
  keys := m.keys
  get? := fun k => (m.get? k).map f
  mem_keys := by simp [m.mem_keys]

variable (m : UMap κ ν)

@[simp] theorem getD_set (k k' : κ) (v d : ν) :
    (m.set k v).getD k' d = if k' = k then v else m.getD k' d := by
  unfold getD set
  dsimp only
  split
  · rfl
  · rfl

@[simp] theorem getD_touch (k k' : κ) (d : ν) : (m.touch k d).getD k' d = m.getD k' d := by
  unfold touch
  split
  · rfl
  · next h =>
      rw [getD_set]
      split
      · next e => rw [e, getD, h, Option.getD_none]
      · rfl

theorem get?_touch (k k' : κ) (d : ν) :
    (m.touch k d).get? k' = if k' = k then some (m.getD k d) else m.get? k' := by
  unfold touch getD
  cases h : m.get? k with
  | none => rfl
  | some v =>
      dsimp only
      split
      · next e => rw [e, h, Option.getD_some]
      · rfl

omit [DecidableEq κ] in
@[simp] theorem getD_empty (k : κ) (d : ν) : (empty : UMap κ ν).getD k d = d := rfl

end UMap

/-! ### `std::set` as an increasing list -/

/-- Insert `r` into an increasing list unless it is there. -/
def emplace (r : ℕ) (l : List ℕ) : List ℕ := if r ∈ l then l else l.orderedInsert (· ≤ ·) r

theorem emplace_perm {r : ℕ} {l : List ℕ} (h : r ∉ l) : (emplace r l).Perm (r :: l) := by
  unfold emplace
  rw [if_neg h]
  exact List.perm_orderedInsert (· ≤ ·) r l

theorem foldr_emplace_perm {rs l : List ℕ} (h : (rs ++ l).Nodup) :
    (rs.foldr emplace l).Perm (rs ++ l) := by
  induction rs with
  | nil => exact List.Perm.refl _
  | cons r rs ih =>
      rw [List.cons_append, List.nodup_cons] at h
      have hp := ih h.2
      have hr : r ∉ rs.foldr emplace l := fun hm => h.1 (hp.mem_iff.mp hm)
      exact (emplace_perm hr).trans (hp.cons r)

/-! ### `std::sort` -/

/-- The comparison is a strict weak ordering on the elements of `l`. -/
structure StrictWeakOn {α : Type} (lt : α → α → Bool) (l : List α) : Prop where
  irrefl : ∀ a ∈ l, lt a a = false
  trans : ∀ a ∈ l, ∀ b ∈ l, ∀ c ∈ l, lt a b = true → lt b c = true → lt a c = true
  incomp : ∀ a ∈ l, ∀ b ∈ l, ∀ c ∈ l, lt a b = false → lt b c = false → lt a c = false

theorem StrictWeakOn.of_subset {lt : α → α → Bool} {l l' : List α} (h : StrictWeakOn lt l)
    (hs : ∀ a ∈ l', a ∈ l) : StrictWeakOn lt l' where
  irrefl := fun a ha => h.irrefl a (hs a ha)
  trans := fun a ha b hb c hc => h.trans a (hs a ha) b (hs b hb) c (hs c hc)
  incomp := fun a ha b hb c hc => h.incomp a (hs a ha) b (hs b hb) c (hs c hc)

theorem StrictWeakOn.asymm {lt : α → α → Bool} {l : List α} (h : StrictWeakOn lt l) {a b : α}
    (ha : a ∈ l) (hb : b ∈ l) (hab : lt a b = true) : lt b a = false := by
  cases hba : lt b a with
  | false => rfl
  | true =>
      have := h.trans a ha b hb a ha hab hba
      rw [h.irrefl a ha] at this
      exact this.symm

/-- Neither element precedes the other. -/
def Incomparable {α : Type} (lt : α → α → Bool) (a b : α) : Prop := lt a b = false ∧ lt b a = false

theorem StrictWeakOn.incomparable_trans {lt : α → α → Bool} {l : List α} (h : StrictWeakOn lt l)
    {a b c : α} (ha : a ∈ l) (hb : b ∈ l) (hc : c ∈ l) (hab : Incomparable lt a b)
    (hbc : Incomparable lt b c) : Incomparable lt a c :=
  ⟨h.incomp a ha b hb c hc hab.1 hbc.1, h.incomp c hc b hb a ha hbc.2 hab.2⟩

theorem StrictWeakOn.of_never {lt : α → α → Bool} {l : List α}
    (h : ∀ a ∈ l, ∀ b ∈ l, lt a b = false) : StrictWeakOn lt l where
  irrefl := fun a ha => h a ha a ha
  trans := fun a ha b hb c _ hab => by
    rw [h a ha b hb] at hab
    cases hab
  incomp := fun a ha _ _ c hc _ _ => h a ha c hc

theorem StrictWeakOn.of_key {β : Type*} [LinearOrder β] {lt : α → α → Bool} {l : List α}
    (key : α → β) (h : ∀ a ∈ l, ∀ b ∈ l, lt a b = true ↔ key a < key b) : StrictWeakOn lt l := by
  have hfalse : ∀ a ∈ l, ∀ b ∈ l, lt a b = false ↔ key b ≤ key a := by
    intro a ha b hb
    rw [← not_lt, ← h a ha b hb, Bool.not_eq_true]
  refine ⟨fun a ha => ?_, fun a ha b hb c hc hab hbc => ?_, fun a ha b hb c hc hab hbc => ?_⟩
  · exact (hfalse a ha a ha).mpr le_rfl
  · exact (h a ha c hc).mpr (((h a ha b hb).mp hab).trans ((h b hb c hc).mp hbc))
  · exact (hfalse a ha c hc).mpr (((hfalse b hb c hc).mp hbc).trans ((hfalse a ha b hb).mp hab))

/-- A sorting function with the guarantees of `std::sort`. -/
structure StdSort (α : Type) where
  sort : (α → α → Bool) → List α → List α
  perm : ∀ lt l, (sort lt l).Perm l
  sorted : ∀ lt l, StrictWeakOn lt l → (sort lt l).Pairwise fun a b => lt b a = false

namespace StdSort

variable {α : Type}

/-- Insert before the first element that does not precede `a`. -/
def insertBy (lt : α → α → Bool) (a : α) : List α → List α
  | [] => [a]
  | b :: l => if lt b a then b :: insertBy lt a l else a :: b :: l

def insertionSort (lt : α → α → Bool) : List α → List α
  | [] => []
  | a :: l => insertBy lt a (insertionSort lt l)

theorem insertBy_perm (lt : α → α → Bool) (a : α) : ∀ l, (insertBy lt a l).Perm (a :: l)
  | [] => List.Perm.refl _
  | b :: l => by
      simp only [insertBy]
      split
      · exact ((insertBy_perm lt a l).cons b).trans (List.Perm.swap a b l)
      · exact List.Perm.refl _

theorem insertionSort_perm (lt : α → α → Bool) : ∀ l, (insertionSort lt l).Perm l
  | [] => List.Perm.refl _
  | a :: l => (insertBy_perm lt a _).trans ((insertionSort_perm lt l).cons a)

theorem insertBy_pairwise {lt : α → α → Bool} {a : α} : ∀ {l : List α},
    StrictWeakOn lt (a :: l) → l.Pairwise (fun a b => lt b a = false) →
      (insertBy lt a l).Pairwise fun a b => lt b a = false
  | [], _, _ => List.pairwise_singleton _ _
  | b :: l, h, hp => by
      obtain ⟨hb, hl⟩ := List.pairwise_cons.mp hp
      simp only [insertBy]
      cases hba : lt b a with
      | true =>
          rw [if_pos rfl]
          refine List.pairwise_cons.mpr ⟨fun c hc => ?_, ?_⟩
          · rcases List.mem_cons.mp ((insertBy_perm lt a l).mem_iff.mp hc) with rfl | hc
            · exact h.asymm (by simp) (by simp) hba
            · exact hb c hc
          · refine insertBy_pairwise (h.of_subset fun c hc => ?_) hl
            rcases List.mem_cons.mp hc with rfl | hc
            · simp
            · simp [hc]
      | false =>
          rw [if_neg (by simp)]
          refine List.pairwise_cons.mpr ⟨fun c hc => ?_, hp⟩
          rcases List.mem_cons.mp hc with rfl | hc
          · exact hba
          · exact h.incomp c (by simp [hc]) b (by simp) a (by simp) (hb c hc) hba

theorem insertionSort_pairwise {lt : α → α → Bool} : ∀ {l : List α}, StrictWeakOn lt l →
    (insertionSort lt l).Pairwise fun a b => lt b a = false
  | [], _ => List.Pairwise.nil
  | a :: l, h => by
      refine insertBy_pairwise (h.of_subset fun b hb => ?_)
        (insertionSort_pairwise (h.of_subset fun b hb => List.mem_cons_of_mem a hb))
      rcases List.mem_cons.mp hb with rfl | hb
      · simp
      · exact List.mem_cons_of_mem a ((insertionSort_perm lt l).mem_iff.mp hb)

theorem insertBy_of_forall {lt : α → α → Bool} {a : α} {l : List α}
    (h : ∀ b ∈ l, lt b a = true) : insertBy lt a l = l ++ [a] := by
  induction l with
  | nil => rfl
  | cons b l ih =>
      rw [insertBy, if_pos (h b List.mem_cons_self), ih fun c hc => h c (List.mem_cons_of_mem b hc)]
      rfl

theorem insertionSort_of_pairwise {lt : α → α → Bool} {l : List α}
    (h : l.Pairwise fun a b => lt b a = false) : insertionSort lt l = l := by
  induction h with
  | nil => rfl
  | @cons a l ha _ ih =>
      rw [insertionSort, ih]
      cases l with
      | nil => rfl
      | cons b l => rw [insertBy, if_neg (by simp [ha b List.mem_cons_self])]

/-- Insertion sort is an instance. -/
def insertion : StdSort α where
  sort := insertionSort
  perm := insertionSort_perm
  sorted := fun _ _ h => insertionSort_pairwise h

/-- The sort compares elements of its range only. -/
def Local (S : StdSort α) : Prop :=
  ∀ lt lt' l, (∀ a ∈ l, ∀ b ∈ l, lt a b = lt' a b) → S.sort lt l = S.sort lt' l

theorem insertBy_congr {lt lt' : α → α → Bool} {a : α} : ∀ {l : List α},
    (∀ b ∈ l, lt b a = lt' b a) → insertBy lt a l = insertBy lt' a l
  | [], _ => rfl
  | b :: l, h => by
      simp only [insertBy]
      rw [h b List.mem_cons_self, insertBy_congr fun c hc => h c (List.mem_cons_of_mem b hc)]

theorem insertion_local : (insertion : StdSort α).Local := by
  intro lt lt' l h
  induction l with
  | nil => rfl
  | cons a l ih =>
      have hl := ih fun b hb c hc => h b (List.mem_cons_of_mem a hb) c (List.mem_cons_of_mem a hc)
      show insertBy lt a (insertionSort lt l) = insertBy lt' a (insertionSort lt' l)
      rw [show insertionSort lt l = insertionSort lt' l from hl]
      apply insertBy_congr
      intro b hb
      have hbl : b ∈ l := (insertionSort_perm lt' l).mem_iff.mp hb
      exact h b (List.mem_cons_of_mem a hbl) a List.mem_cons_self

theorem mem_sort (S : StdSort α) (lt : α → α → Bool) (l : List α) {a : α} :
    a ∈ S.sort lt l ↔ a ∈ l := (S.perm lt l).mem_iff

end StdSort

/-! ### Exact numbers with an undefined quotient -/

/-- A rational, or the result of a division by zero. -/
inductive Dbl where
  | fin (q : ℚ)
  | undef
deriving DecidableEq

namespace Dbl

/-- `a / b` for rationals. -/
def div (a b : ℚ) : Dbl := if b = 0 then undef else fin (a / b)

/-- `a < b`: false as soon as one side is undefined. -/
def lt : Dbl → Dbl → Bool
  | fin a, fin b => decide (a < b)
  | _, _ => false

/-- `a <= b`: false as soon as one side is undefined. -/
def le : Dbl → Dbl → Bool
  | fin a, fin b => decide (a ≤ b)
  | _, _ => false

/-- `a == b`: false as soon as one side is undefined. -/
def eq : Dbl → Dbl → Bool
  | fin a, fin b => decide (a = b)
  | _, _ => false

@[simp] theorem lt_fin (a b : ℚ) : lt (fin a) (fin b) = decide (a < b) := rfl
@[simp] theorem le_fin (a b : ℚ) : le (fin a) (fin b) = decide (a ≤ b) := rfl

theorem lt_irrefl (x : Dbl) : lt x x = false := by
  cases x with
  | fin a => simp
  | undef => rfl

theorem le_antisymm {x y : Dbl} (h : le x y = true) (h' : le y x = true) : x = y := by
  cases x with
  | undef => cases h
  | fin a =>
      cases y with
      | undef => cases h
      | fin b =>
          rw [le_fin, decide_eq_true_eq] at h h'
          rw [h.antisymm h']

theorem div_of_ne {a b : ℚ} (h : b ≠ 0) : div a b = fin (a / b) := if_neg h

end Dbl

end Cxx
