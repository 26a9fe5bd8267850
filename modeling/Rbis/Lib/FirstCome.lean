import Mathlib.Data.List.Basic
import Mathlib.Logic.Function.Iterate
import Mathlib.Tactic.Common

/-! # First come, first served

Units are handed out one at a time to claimants in a line, where `enough a k` says that `k`
units are enough for `a`.  Each claimant gets a first unit, and then every unit goes to the
first one in the line who has not enough (`give`).  The distribution is even, in the sense that
the claimants who have not enough differ by at most one unit, exactly if it splits evenly
(`EvenSplit`): the units that remain after the first round run out at a claimant who gets at most
one of them, or behind whom everyone has enough with one unit (`even_after_iff`). -/

namespace FirstCome

variable {α : Type*} (enough : α → ℕ → Bool)

/-- A further unit, for the first claimant who has not enough. -/
def more : List (α × ℕ) → List (α × ℕ)
  | [] => []
  | (a, k) :: l => if enough a k then (a, k) :: more l else (a, k + 1) :: l

/-- One unit, with the claimants who have been served and the ones who wait. -/
def give : List (α × ℕ) × List α → List (α × ℕ) × List α
  | (served, []) => (more enough served, [])
  | (served, a :: waiting) => (served ++ [(a, 1)], waiting)

/-- The units of every claimant. -/
def units (s : List (α × ℕ) × List α) : List (α × ℕ) := s.1 ++ s.2.map fun a => (a, 0)

/-- The units of the line `l` after `n` of them. -/
def after (n : ℕ) (l : List α) : List (α × ℕ) := units ((give enough)^[n] ([], l))

/-- The claimants who have not enough differ by at most one unit. -/
def Even (l : List (α × ℕ)) : Prop :=
  ∀ x ∈ l, ∀ y ∈ l, enough x.1 x.2 = false → enough y.1 y.2 = false → x.2 ≤ y.2 + 1

/-- The units that `a`, who has `k`, takes out of `n`. -/
def takes (a : α) : ℕ → ℕ → ℕ
  | _, 0 => 0
  | k, n + 1 => if enough a k then 0 else takes a (k + 1) n + 1

/-- The `n` units that remain when everyone has one run out without harm. -/
def EvenSplit : List α → ℕ → Prop
  | [], _ => True
  | a :: l, n =>
      if enough a (1 + takes enough a 1 n) then EvenSplit l (n - takes enough a 1 n)
      else n ≤ 1 ∨ ∀ b ∈ l, enough b 1 = true

variable {enough}

/-! ### Further units -/

theorem takes_of_enough {a : α} {k : ℕ} (h : enough a k = true) (n : ℕ) :
    takes enough a k n = 0 := by
  cases n with
  | zero => rfl
  | succ n => simp [takes, h]

theorem takes_eq_of_not_enough {a : α} {k n : ℕ}
    (h : enough a (k + takes enough a k n) = false) : takes enough a k n = n := by
  induction n generalizing k with
  | zero => rfl
  | succ n ih =>
      cases hk : enough a k with
      | true =>
          rw [takes_of_enough hk, Nat.add_zero] at h
          rw [hk] at h
          cases h
      | false =>
          simp only [takes, hk, Bool.false_eq_true, if_false] at h ⊢
          rw [ih (by rwa [Nat.add_assoc, Nat.add_comm 1])]

theorem iterate_more_cons (a : α) (k n : ℕ) (l : List (α × ℕ)) :
    (more enough)^[n] ((a, k) :: l) =
      (a, k + takes enough a k n) :: (more enough)^[n - takes enough a k n] l := by
  induction n generalizing k l with
  | zero => rfl
  | succ n ih =>
      cases hk : enough a k with
      | true =>
          have hmore : more enough ((a, k) :: l) = (a, k) :: more enough l := by simp [more, hk]
          rw [Function.iterate_succ_apply, hmore, ih, takes_of_enough hk, takes_of_enough hk]
          rfl
      | false =>
          have hmore : more enough ((a, k) :: l) = (a, k + 1) :: l := by simp [more, hk]
          rw [Function.iterate_succ_apply, hmore, ih]
          simp only [takes, hk, Bool.false_eq_true, if_false]
          rw [Nat.add_sub_add_right]
          congr 2
          omega

theorem more_eq_self {l : List (α × ℕ)} (h : ∀ x ∈ l, enough x.1 x.2 = true) :
    more enough l = l := by
  induction l with
  | nil => rfl
  | cons x l ih =>
      have hx : enough x.1 x.2 = true := h x List.mem_cons_self
      rw [more, if_pos hx, ih fun y hy => h y (List.mem_cons_of_mem x hy)]

theorem more_append {pre post : List (α × ℕ)} {a : α} {k : ℕ}
    (hpre : ∀ x ∈ pre, enough x.1 x.2 = true) (ha : enough a k = false) :
    more enough (pre ++ (a, k) :: post) = pre ++ (a, k + 1) :: post := by
  induction pre with
  | nil => simp [more, ha]
  | cons x pre ih =>
      have hx : enough x.1 x.2 = true := hpre x List.mem_cons_self
      rw [List.cons_append, more, if_pos hx, ih fun y hy => hpre y (List.mem_cons_of_mem x hy)]
      rfl

variable (enough) in
theorem enough_or_first (l : List (α × ℕ)) :
    (∀ x ∈ l, enough x.1 x.2 = true) ∨ ∃ pre a k post, l = pre ++ (a, k) :: post ∧
      (∀ x ∈ pre, enough x.1 x.2 = true) ∧ enough a k = false := by
  induction l with
  | nil => exact Or.inl fun x hx => absurd hx List.not_mem_nil
  | cons x l ih =>
      cases hx : enough x.1 x.2 with
      | false => exact Or.inr ⟨[], x.1, x.2, l, rfl, fun y hy => absurd hy List.not_mem_nil, hx⟩
      | true =>
          rcases ih with hall | ⟨pre, a, k, post, rfl, hpre, ha⟩
          · exact Or.inl (List.forall_mem_cons.mpr ⟨hx, hall⟩)
          · exact Or.inr ⟨x :: pre, a, k, post, rfl, List.forall_mem_cons.mpr ⟨hx, hpre⟩, ha⟩

/-! ### The first round -/

variable (enough) in
theorem iterate_give_append (served : List (α × ℕ)) (l waiting : List α) :
    (give enough)^[l.length] (served, l ++ waiting) =
      (served ++ l.map (fun a => (a, 1)), waiting) := by
  induction l generalizing served with
  | nil => simp
  | cons a l ih =>
      rw [List.length_cons, Function.iterate_succ_apply]
      show (give enough)^[l.length] (served ++ [(a, 1)], l ++ waiting) = _
      rw [ih, List.append_assoc]
      rfl

theorem iterate_give_nil (n : ℕ) (served : List (α × ℕ)) :
    (give enough)^[n] (served, []) = ((more enough)^[n] served, []) := by
  induction n generalizing served with
  | zero => rfl
  | succ n ih =>
      rw [Function.iterate_succ_apply, Function.iterate_succ_apply]
      exact ih _

theorem after_of_le {n : ℕ} {l : List α} (h : n ≤ l.length) :
    after enough n l = (l.take n).map (fun a => (a, 1)) ++ (l.drop n).map fun a => (a, 0) := by
  have hlen : (l.take n).length = n := List.length_take_of_le h
  have hgive := iterate_give_append enough [] (l.take n) (l.drop n)
  rw [hlen, List.take_append_drop] at hgive
  rw [after, hgive]
  rfl

theorem after_of_length_le {n : ℕ} {l : List α} (h : l.length ≤ n) :
    after enough n l = (more enough)^[n - l.length] (l.map fun a => (a, 1)) := by
  have hgive := iterate_give_append enough [] l []
  rw [List.append_nil] at hgive
  have hn : n = (n - l.length) + l.length := by omega
  rw [after, hn, Function.iterate_add_apply, hgive, iterate_give_nil, Nat.add_sub_cancel]
  simp [units]

/-! ### Evenness -/

theorem even_of_le_one {l : List (α × ℕ)} (h : ∀ x ∈ l, x.2 ≤ 1) : Even enough l := by
  intro x hx y _ _ _
  have := h x hx
  omega

theorem even_cons_of_enough {a : α} {k : ℕ} {l : List (α × ℕ)} (h : enough a k = true) :
    Even enough ((a, k) :: l) ↔ Even enough l := by
  constructor
  · intro he x hx y hy
    exact he x (List.mem_cons_of_mem _ hx) y (List.mem_cons_of_mem _ hy)
  · intro he x hx y hy hx0 hy0
    rcases List.mem_cons.mp hx with rfl | hx
    · rw [h] at hx0
      cases hx0
    · rcases List.mem_cons.mp hy with rfl | hy
      · rw [h] at hy0
        cases hy0
      · exact he x hx y hy hx0 hy0

/-- The units ran out at `a`. -/
theorem even_cons_ones {a : α} {n : ℕ} {l : List α} (h : enough a (1 + n) = false) :
    Even enough ((a, 1 + n) :: l.map fun b => (b, 1)) ↔
      n ≤ 1 ∨ ∀ b ∈ l, enough b 1 = true := by
  constructor
  · intro he
    by_contra hcon
    push Not at hcon
    obtain ⟨hn, b, hb, hb0⟩ := hcon
    have := he _ List.mem_cons_self (b, 1)
      (List.mem_cons_of_mem _ (List.mem_map.mpr ⟨b, hb, rfl⟩)) h (by simpa using hb0)
    simp only at this
    omega
  · intro hor x hx y hy hx0 hy0
    rcases List.mem_cons.mp hx with rfl | hx
    · rcases List.mem_cons.mp hy with rfl | hy
      · simp only
        omega
      · obtain ⟨b, hb, rfl⟩ := List.mem_map.mp hy
        rcases hor with hn | hall
        · simp only
          omega
        · rw [hall b hb] at hy0
          cases hy0
    · obtain ⟨b, _, rfl⟩ := List.mem_map.mp hx
      simp only
      omega

theorem evenSplit_zero (l : List α) : EvenSplit enough l 0 := by
  induction l with
  | nil => trivial
  | cons a l ih =>
      unfold EvenSplit
      split
      · exact ih
      · exact Or.inl (Nat.zero_le 1)

theorem even_iterate_more_iff (l : List α) (n : ℕ) :
    Even enough ((more enough)^[n] (l.map fun a => (a, 1))) ↔ EvenSplit enough l n := by
  induction l generalizing n with
  | nil =>
      have hnil : (more enough)^[n] [] = [] := Function.iterate_fixed rfl n
      rw [List.map_nil, hnil]
      exact iff_of_true (fun x hx => absurd hx List.not_mem_nil) trivial
  | cons a l ih =>
      rw [List.map_cons, iterate_more_cons, EvenSplit]
      cases ha : enough a (1 + takes enough a 1 n) with
      | true =>
          rw [if_pos rfl, even_cons_of_enough ha]
          exact ih _
      | false =>
          have htakes := takes_eq_of_not_enough ha
          rw [htakes] at ha ⊢
          rw [if_neg (by simp), Nat.sub_self]
          exact even_cons_ones ha

/-- **Evenness** of the distribution of `n` units. -/
theorem even_after_iff (n : ℕ) (l : List α) :
    Even enough (after enough n l) ↔ EvenSplit enough l (n - l.length) := by
  rcases Nat.le_total n l.length with h | h
  · rw [Nat.sub_eq_zero_of_le h, after_of_le h]
    refine iff_of_true (even_of_le_one fun x hx => ?_) (evenSplit_zero l)
    rcases List.mem_append.mp hx with hx | hx
    · obtain ⟨a, _, rfl⟩ := List.mem_map.mp hx
      exact Nat.le_refl 1
    · obtain ⟨a, _, rfl⟩ := List.mem_map.mp hx
      exact Nat.zero_le 1
  · rw [after_of_length_le h]
    exact even_iterate_more_iff l _

end FirstCome
