import Mathlib.Data.Nat.Bitwise

/-! # Bit fields of a number

A field of `n` bits at place `k` is cut out by a mask (`and_shiftRight`, `shiftLeft_and`), and fields
that do not overlap are put together by a bitwise or (`mul_or`).  Each is an equation between the
bit operations of a codec and the arithmetic of `/`, `%` and `+`. -/

namespace Bits

theorem and_shiftRight (x k n : ℕ) : (x &&& ((2 ^ n - 1) <<< k)) >>> k = x / 2 ^ k % 2 ^ n := by
  rw [Nat.shiftRight_and_distrib, Nat.shiftLeft_shiftRight, Nat.and_two_pow_sub_one_eq_mod,
    Nat.shiftRight_eq_div_pow]

theorem shiftLeft_and (x k n : ℕ) : (x <<< k) &&& ((2 ^ n - 1) <<< k) = x % 2 ^ n * 2 ^ k := by
  rw [← Nat.shiftLeft_and_distrib, Nat.and_two_pow_sub_one_eq_mod, Nat.shiftLeft_eq]

theorem shiftRight_and (x k n : ℕ) : (x >>> k) &&& (2 ^ n - 1) = x / 2 ^ k % 2 ^ n := by
  rw [Nat.and_two_pow_sub_one_eq_mod, Nat.shiftRight_eq_div_pow]

theorem mul_or (a : ℕ) {b k : ℕ} (hb : b < 2 ^ k) : a * 2 ^ k ||| b = a * 2 ^ k + b := by
  rw [← Nat.shiftLeft_eq, Nat.shiftLeft_add_eq_or_of_lt hb]

end Bits
