import Mathlib.Data.Int.Log
import Mathlib.Data.Rat.Floor
import Mathlib.Tactic.FieldSimp
import Mathlib.Tactic.Linarith
import Mathlib.Tactic.Positivity
import Mathlib.Tactic.Ring

/-! # Rounding to an integer and to binary32

Both round to nearest, ties to even. `f32` is the binary32 number nearest to a
rational, for results in the normal range: the model computes with exact values
and rounds after every operation. -/
namespace IotController.Binary32

def roundHalfEven (x : ℚ) : ℤ :=
  let r := x - ⌊x⌋
  if r < 1 / 2 then ⌊x⌋
  else if 1 / 2 < r then ⌊x⌋ + 1
  else if ⌊x⌋ % 2 = 0 then ⌊x⌋ else ⌊x⌋ + 1

theorem roundHalfEven_intCast (n : ℤ) : roundHalfEven n = n := by
  simp [roundHalfEven]

theorem abs_roundHalfEven_sub (x : ℚ) : |roundHalfEven x - x| ≤ 1 / 2 := by
  have h0 := Int.floor_le x
  have h1 := Int.lt_floor_add_one x
  unfold roundHalfEven
  dsimp only
  rw [abs_le]
  split_ifs <;> push_cast <;> constructor <;> linarith

theorem roundHalfEven_nonneg {x : ℚ} (h : 0 ≤ x) : 0 ≤ roundHalfEven x := by
  have hf : 0 ≤ ⌊x⌋ := Int.floor_nonneg.mpr h
  unfold roundHalfEven
  dsimp only
  split_ifs <;> omega

/-- The distance between neighbouring binary32 numbers of the size of `x`. -/
def ulp (x : ℚ) : ℚ := 2 ^ (Int.log 2 |x| - 23)

def f32 (x : ℚ) : ℚ := if x = 0 then 0 else roundHalfEven (x / ulp x) * ulp x

theorem ulp_pos (x : ℚ) : 0 < ulp x := zpow_pos two_pos _

theorem ulp_le {x : ℚ} (h : x ≠ 0) : ulp x ≤ |x| / 2 ^ 23 := by
  have hlog := Int.zpow_log_le_self (R := ℚ) (b := 2) (by decide) (abs_pos.mpr h)
  rw [ulp, zpow_sub₀ two_ne_zero]
  exact div_le_div_of_nonneg_right (by exact_mod_cast hlog) (by positivity)

/-- The relative error of one rounding. -/
theorem abs_f32_sub_le (x : ℚ) : |f32 x - x| ≤ |x| / 2 ^ 24 := by
  unfold f32
  split
  · next h => simp [h]
  · next h =>
    have hu := ulp_pos x
    have hr := abs_roundHalfEven_sub (x / ulp x)
    have hx : roundHalfEven (x / ulp x) * ulp x - x =
        (roundHalfEven (x / ulp x) - x / ulp x) * ulp x := by field_simp
    rw [hx, abs_mul, abs_of_pos hu]
    calc |(roundHalfEven (x / ulp x) : ℚ) - x / ulp x| * ulp x
        ≤ 1 / 2 * (|x| / 2 ^ 23) := by
          exact mul_le_mul hr (ulp_le h) hu.le (by norm_num)
      _ = |x| / 2 ^ 24 := by ring

theorem abs_f32_le (x : ℚ) : |f32 x| ≤ 2 * |x| := by
  have h := abs_f32_sub_le x
  have htri := abs_sub_abs_le_abs_sub (f32 x) x
  have hpos := abs_nonneg x
  linarith

/-- Whatever fits in 24 bits is left alone, at any scale. -/
theorem f32_exact (n : ℤ) (k : ℕ) (h : |n| < 2 ^ 24) : f32 (n / 2 ^ k) = n / 2 ^ k := by
  unfold f32
  split
  · next h0 => exact h0.symm
  · next h0 =>
    set x : ℚ := n / 2 ^ k with hx
    have hlog : Int.log 2 |x| < 24 - k := by
      rw [← Int.lt_zpow_iff_log_lt (by decide) (abs_pos.mpr h0), hx, abs_div, Nat.cast_ofNat,
        zpow_sub₀ two_ne_zero, zpow_natCast, abs_of_pos (by positivity : (0 : ℚ) < 2 ^ k)]
      refine div_lt_div_of_pos_right ?_ (by positivity)
      exact_mod_cast h
    obtain ⟨j, hj⟩ := Int.eq_ofNat_of_zero_le (show 0 ≤ 23 - Int.log 2 |x| - k by omega)
    have hint : x / ulp x = (n * 2 ^ j : ℤ) := by
      have he : Int.log 2 |x| - 23 = -(j + k : ℤ) := by omega
      rw [ulp, he, hx]
      push_cast
      rw [zpow_neg, zpow_add₀ two_ne_zero, zpow_natCast, zpow_natCast]
      field_simp
    rw [hint, roundHalfEven_intCast, ← hint]
    exact div_mul_cancel₀ x (ulp_pos x).ne'

end IotController.Binary32
