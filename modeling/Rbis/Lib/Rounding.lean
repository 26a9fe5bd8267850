import Mathlib.Algebra.Order.Ring.Rat
import Mathlib.Data.Int.Log
import Mathlib.Data.Rat.Floor
import Mathlib.Tactic.GCongr
import Mathlib.Tactic.Linarith
import Mathlib.Tactic.NormNum
import Mathlib.Tactic.Positivity
import Mathlib.Tactic.Ring

/-! # Rounding to the nearest `double`

`NearestDouble fl` is what a development may rely on when a `double` operation is an exact
operation followed by the rounding `fl`.  `roundDouble` is such a rounding: 53 digits, and ties to
even. -/

namespace Cxx

/-- The positive `double` values between the subnormal ones and the overflow. -/
structure Normal (x : ℚ) : Prop where
  lo : 1 / 2 ^ 1022 ≤ x
  hi : x ≤ 2 ^ 1023

/-- A rounding to the nearest `double`: the error is at most half of the last digit. -/
structure NearestDouble (fl : ℚ → ℚ) : Prop where
  zero : fl 0 = 0
  relErr : ∀ x, Normal x → |fl x - x| ≤ x / 2 ^ 53

theorem normal_of_le {x : ℚ} (hlo : 1 / 2 ^ 129 ≤ x) (hhi : x ≤ 2 ^ 129) : Normal x := by
  constructor
  · apply le_trans ?_ hlo
    exact one_div_le_one_div_of_le (by positivity) (pow_le_pow_right₀ one_le_two (by omega))
  · apply le_trans hhi
    exact pow_le_pow_right₀ one_le_two (by omega)

theorem Normal.pos {x : ℚ} (h : Normal x) : 0 < x := lt_of_lt_of_le (by positivity) h.lo

namespace NearestDouble

variable {fl : ℚ → ℚ}

theorem le (h : NearestDouble fl) {x : ℚ} (hx : Normal x) : fl x ≤ x * (1 + 1 / 2 ^ 53) := by
  have herr := (abs_le.mp (h.relErr x hx)).2
  linarith

theorem half_le (h : NearestDouble fl) {x : ℚ} (hx : Normal x) : x / 2 ≤ fl x := by
  have herr := (abs_le.mp (h.relErr x hx)).1
  have hpos := hx.pos
  linarith

/-- A multiple of a rounded quotient, rounded again, is too large by two roundings at most. -/
theorem mul_div_le (h : NearestDouble fl) {a t b : ℕ} (ht : 0 < t) (ha : a < 2 ^ 64)
    (ht' : t < 2 ^ 64) (hb : b < 2 ^ 64) :
    fl (b * fl (a / t)) ≤ b * (a / t) * (1 + 1 / 2 ^ 53) ^ 2 := by
  rcases Nat.eq_zero_or_pos a with rfl | ha0
  · rw [Nat.cast_zero, zero_div, h.zero, mul_zero, h.zero, zero_mul]
  rcases Nat.eq_zero_or_pos b with rfl | hb0
  · rw [Nat.cast_zero, zero_mul, h.zero, zero_mul, zero_mul]
  have ht0 : (0 : ℚ) < t := Nat.cast_pos.mpr ht
  have ht1 : (1 : ℚ) ≤ t := Nat.one_le_cast.mpr ht
  have ha1 : (1 : ℚ) ≤ a := Nat.one_le_cast.mpr ha0
  have hb1 : (1 : ℚ) ≤ b := Nat.one_le_cast.mpr hb0
  have ht2 : (t : ℚ) ≤ 2 ^ 64 := by exact_mod_cast ht'.le
  have ha2 : (a : ℚ) ≤ 2 ^ 64 := by exact_mod_cast ha.le
  have hb2 : (b : ℚ) ≤ 2 ^ 64 := by exact_mod_cast hb.le
  have hlow : 1 / 2 ^ 64 ≤ (a : ℚ) / t := div_le_div₀ (by linarith) ha1 ht0 ht2
  have hhigh : (a : ℚ) / t ≤ 2 ^ 64 := (div_le_self (by linarith) ht1).trans ha2
  have hnormal : Normal ((a : ℚ) / t) := normal_of_le (by linarith) (by linarith)
  have hq := h.le hnormal
  have hq' := h.half_le hnormal
  set q := fl ((a : ℚ) / t)
  have hqlow : 1 / 2 ^ 65 ≤ q := by linarith
  have hqhigh : q ≤ 2 ^ 65 := by linarith
  have hprod : Normal ((b : ℚ) * q) := by
    apply normal_of_le
    · calc (1 : ℚ) / 2 ^ 129 ≤ 1 * (1 / 2 ^ 65) := by norm_num
        _ ≤ b * q := mul_le_mul hb1 hqlow (by positivity) (by positivity)
    · calc (b : ℚ) * q ≤ 2 ^ 64 * 2 ^ 65 :=
            mul_le_mul hb2 hqhigh (le_trans (by positivity) hqlow) (by positivity)
        _ = 2 ^ 129 := by norm_num
  calc fl (b * q) ≤ b * q * (1 + 1 / 2 ^ 53) := h.le hprod
    _ ≤ b * (a / t * (1 + 1 / 2 ^ 53)) * (1 + 1 / 2 ^ 53) := by gcongr
    _ = b * (a / t) * (1 + 1 / 2 ^ 53) ^ 2 := by ring

end NearestDouble

/-! ### The rounding of 53 digits -/

/-- The nearest integer; of two, the even one. -/
def roundHalfEven (y : ℚ) : ℤ :=
  if y - ⌊y⌋ < 1 / 2 then ⌊y⌋
  else if 1 / 2 < y - ⌊y⌋ then ⌊y⌋ + 1
  else if ⌊y⌋ % 2 = 0 then ⌊y⌋ else ⌊y⌋ + 1

/-- The last of 53 digits. -/
def ulp (x : ℚ) : ℚ := 2 ^ (Int.log 2 |x| - 52)

/-- The nearest number of 53 digits. -/
def roundDouble (x : ℚ) : ℚ := roundHalfEven (x / ulp x) * ulp x

theorem abs_roundHalfEven_sub_le (y : ℚ) : |(roundHalfEven y : ℚ) - y| ≤ 1 / 2 := by
  have hlo := Int.floor_le y
  have hhi := Int.lt_floor_add_one y
  rw [abs_le]
  unfold roundHalfEven
  split
  · constructor <;> linarith
  · split
    · push_cast
      constructor <;> linarith
    · split
      · constructor <;> linarith
      · push_cast
        constructor <;> linarith

theorem ulp_le {x : ℚ} (hx : 0 < x) : ulp x ≤ x / 2 ^ 52 := by
  have hlog := Int.zpow_log_le_self (b := 2) (by norm_num) hx
  rw [ulp, abs_of_pos hx, zpow_sub₀ (by norm_num)]
  have hcast : ((2 : ℕ) : ℚ) ^ Int.log 2 x ≤ x := hlog
  push_cast at hcast
  exact div_le_div_of_nonneg_right hcast (by positivity)

theorem nearestDouble_roundDouble : NearestDouble roundDouble where
  zero := by
    rw [roundDouble, zero_div]
    have hzero : roundHalfEven 0 = 0 := by decide +kernel
    rw [hzero, Int.cast_zero, zero_mul]
  relErr := fun x hnormal => by
    have hx := hnormal.pos
    have hulp : 0 < ulp x := zpow_pos (by norm_num) _
    have hdiff : roundDouble x - x = (roundHalfEven (x / ulp x) - x / ulp x) * ulp x := by
      rw [roundDouble, sub_mul, div_mul_cancel₀ x hulp.ne']
    calc |roundDouble x - x|
        = |(roundHalfEven (x / ulp x) : ℚ) - x / ulp x| * ulp x := by
          rw [hdiff, abs_mul, abs_of_pos hulp]
      _ ≤ 1 / 2 * (x / 2 ^ 52) :=
          mul_le_mul (abs_roundHalfEven_sub_le _) (ulp_le hx) hulp.le (by norm_num)
      _ = x / 2 ^ 53 := by ring

end Cxx
