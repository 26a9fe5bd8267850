import Mathlib.Algebra.BigOperators.Fin
import Mathlib.Algebra.BigOperators.Intervals
import Mathlib.Data.Nat.Digits.Defs
import Mathlib.Data.Set.Defs

/-! # Numerals of a fixed width

A number below `b ^ n` has one numeral of `n` digits in base `b`, also for `b = 1`.  `digits` is
the loop that takes the last digit off again and again; `Nat.ofDigits` is its inverse
(`ofDigits_digits`, `digits_ofDigits`).  Read from the first digit on, a numeral is the sum of its
digits times their weights (`ofDigits_reverse`). -/

namespace Numeral

/-- The last `n` digits of `i` in base `b`, the last one first. -/
def digits (b : ℕ) : ℕ → ℕ → List ℕ
  | 0, _ => []
  | n + 1, i => i % b :: digits b n (i / b)

/-- The lists of `n` digits in base `b`. -/
def numerals (b n : ℕ) : Set (List ℕ) := {l | l.length = n ∧ ∀ d ∈ l, d < b}

variable {b n : ℕ} {l : List ℕ}

theorem length_digits (b : ℕ) : ∀ n i, (digits b n i).length = n
  | 0, _ => rfl
  | n + 1, i => by rw [digits, List.length_cons, length_digits b n]

theorem digits_mem (hb : 0 < b) (n i : ℕ) : digits b n i ∈ numerals b n := by
  refine ⟨length_digits b n i, ?_⟩
  induction n generalizing i with
  | zero => exact fun d hd => absurd hd List.not_mem_nil
  | succ n ih =>
      intro d hd
      obtain rfl | hd := List.mem_cons.mp hd
      · exact Nat.mod_lt i hb
      · exact ih (i / b) d hd

theorem reverse_mem (h : l ∈ numerals b n) : l.reverse ∈ numerals b n :=
  ⟨List.length_reverse.trans h.1, fun d hd => h.2 d (List.mem_reverse.mp hd)⟩

theorem ofDigits_digits (b n i : ℕ) : Nat.ofDigits b (digits b n i) = i % b ^ n := by
  induction n generalizing i with
  | zero => rw [digits, Nat.ofDigits_nil, pow_zero, Nat.mod_one]
  | succ n ih =>
      rw [digits, Nat.ofDigits_cons, ih, pow_succ', Nat.mod_mul]

theorem digits_ofDigits (h : l ∈ numerals b n) : digits b n (Nat.ofDigits b l) = l := by
  obtain ⟨rfl, hlt⟩ := h
  induction l with
  | nil => rfl
  | cons d l ih =>
      have hd : d < b := hlt d List.mem_cons_self
      rw [List.length_cons, digits, Nat.ofDigits_cons, Nat.add_mul_mod_self_left,
        Nat.mod_eq_of_lt hd, Nat.add_mul_div_left _ _ (by omega), Nat.div_eq_of_lt hd, Nat.zero_add,
        ih fun e he => hlt e (List.mem_cons_of_mem d he)]

theorem ofDigits_lt (h : l ∈ numerals b n) : Nat.ofDigits b l < b ^ n := by
  obtain ⟨rfl, hlt⟩ := h
  induction l with
  | nil => exact Nat.one_pos
  | cons d l ih =>
      have hd : d < b := hlt d List.mem_cons_self
      have hl := ih fun e he => hlt e (List.mem_cons_of_mem d he)
      rw [Nat.ofDigits_cons, List.length_cons, pow_succ']
      calc d + b * Nat.ofDigits b l < b * (Nat.ofDigits b l + 1) := by rw [Nat.mul_succ]; omega
        _ ≤ b * b ^ l.length := Nat.mul_le_mul_left b hl

theorem replicate_zero_mem (hb : 0 < b) (n : ℕ) : List.replicate n 0 ∈ numerals b n := by
  refine ⟨List.length_replicate, fun d hd => ?_⟩
  rw [List.eq_of_mem_replicate hd]
  exact hb

theorem ofDigits_replicate_zero (b n : ℕ) : Nat.ofDigits b (List.replicate n 0) = 0 :=
  Nat.ofDigits_append_replicate_zero []

theorem digits_eq_zeros_iff (hb : 0 < b) (n i : ℕ) :
    digits b n i = List.replicate n 0 ↔ b ^ n ∣ i := by
  rw [Nat.dvd_iff_mod_eq_zero, ← ofDigits_digits]
  constructor
  · intro h
    rw [h, ofDigits_replicate_zero]
  · intro h
    calc digits b n i = digits b n (Nat.ofDigits b (List.replicate n 0)) := by
          rw [ofDigits_replicate_zero, ← h, digits_ofDigits (digits_mem hb n i)]
      _ = List.replicate n 0 := digits_ofDigits (replicate_zero_mem hb n)

theorem ofDigits_reverse (b : ℕ) (l : List ℕ) :
    Nat.ofDigits b l.reverse =
      ∑ i ∈ Finset.range l.length, l.getD i 0 * b ^ (l.length - 1 - i) := by
  induction l with
  | nil => rfl
  | cons d l ih =>
      rw [List.reverse_cons, Nat.ofDigits_append, Nat.ofDigits_singleton, List.length_reverse, ih,
        List.length_cons, Finset.sum_range_succ', Nat.add_sub_cancel, mul_comm]
      refine congrArg₂ _ (Finset.sum_congr rfl fun i hi => ?_) rfl
      rw [List.getD_cons_succ, Nat.sub_sub, Nat.add_comm 1 i]

end Numeral
