import Mathlib

/-! Doubles, as the rational numbers they are.

`round` is the double nearest to a number, of two equally near the one with the even
significand: 53 binary digits, and any exponent. What is rounded moves by a part in 2 ^ 53
at most (`abs_round_sub_le`), and never past an integer that is a double itself
(`round_le_natCast`). -/
namespace Sentinel.Library.Binary64

/-- The nearest integer, of two equally near the even one. -/
def nearest (x : ℚ) : ℤ :=
  if Int.fract x < 1 / 2 then ⌊x⌋
  else if 1 / 2 < Int.fract x then ⌊x⌋ + 1
  else ⌊x⌋ + ⌊x⌋ % 2

/-- How far the doubles about `x` are apart. -/
def ulp (x : ℚ) : ℚ := 2 ^ (Int.log 2 |x| - 52)

def round (x : ℚ) : ℚ := nearest (x / ulp x) * ulp x

example : round (101767225600999999 / 1000000) = 101767225601 := by decide +kernel

/-- `int`, which cuts the fraction off. -/
def truncate (x : ℚ) : ℤ := if x < 0 then ⌈x⌉ else ⌊x⌋

theorem abs_nearest_sub_le (x : ℚ) : |nearest x - x| ≤ 1 / 2 := by
  have hfract : x - ⌊x⌋ = Int.fract x := Int.self_sub_floor x
  have heven : ⌊x⌋ % 2 = 0 ∨ ⌊x⌋ % 2 = 1 := by omega
  have hnonneg := Int.fract_nonneg x
  have hlt := Int.fract_lt_one x
  unfold nearest
  split_ifs with hlow hhigh
  · rw [abs_le]
    constructor <;> linarith
  · push_cast
    rw [abs_le]
    constructor <;> linarith
  · have hhalf : Int.fract x = 1 / 2 := le_antisymm (not_lt.mp hhigh) (not_lt.mp hlow)
    rcases heven with heven | heven <;> rw [heven] <;> push_cast <;> rw [abs_le] <;> constructor <;> linarith

/-- Rounding goes past no integer. -/
theorem nearest_le {x : ℚ} {n : ℤ} (h : x ≤ n) : nearest x ≤ n := by
  rcases h.lt_or_eq with hlt | rfl
  · have hfloor : ⌊x⌋ < n := Int.floor_lt.mpr hlt
    have heven : ⌊x⌋ % 2 ≤ 1 := by omega
    unfold nearest
    split_ifs <;> omega
  · simp [nearest]

theorem ulp_pos (x : ℚ) : 0 < ulp x := zpow_pos (by norm_num) _

/-- A double has 53 digits. -/
theorem ulp_le {x : ℚ} (hx : x ≠ 0) : ulp x ≤ |x| * 2 ^ (-52 : ℤ) := by
  have hlog : (2 : ℚ) ^ Int.log 2 |x| ≤ |x| := Int.zpow_log_le_self (by norm_num) (abs_pos.mpr hx)
  rw [ulp, sub_eq_add_neg, zpow_add₀ (by norm_num)]
  exact mul_le_mul_of_nonneg_right hlog (by positivity)

theorem abs_round_sub_le (x : ℚ) : |round x - x| ≤ |x| * 2 ^ (-53 : ℤ) := by
  by_cases hx : x = 0
  · simp [hx, round, nearest]
  · have hu := ulp_pos x
    have hscaled : round x - x = (nearest (x / ulp x) - x / ulp x) * ulp x := by
      rw [round, sub_mul, div_mul_cancel₀ x hu.ne']
    calc |round x - x| = |nearest (x / ulp x) - x / ulp x| * ulp x := by rw [hscaled, abs_mul, abs_of_pos hu]
      _ ≤ 1 / 2 * ulp x := mul_le_mul_of_nonneg_right (abs_nearest_sub_le _) hu.le
      _ ≤ 1 / 2 * (|x| * 2 ^ (-52 : ℤ)) := mul_le_mul_of_nonneg_left (ulp_le hx) (by norm_num)
      _ = |x| * 2 ^ (-53 : ℤ) := by
        rw [show (-52 : ℤ) = -53 + 1 by norm_num, zpow_add₀ (by norm_num)]
        ring

/-- Up to `2 ^ 53`, integers are doubles: what is below one stays below. -/
theorem round_le_natCast {x : ℚ} {n : ℕ} (hn : n < 2 ^ 53) (h : x ≤ n) : round x ≤ n := by
  have hu := ulp_pos x
  rcases le_or_gt x 0 with hneg | hpos
  · have hnearest : nearest (x / ulp x) ≤ 0 := nearest_le (by simpa using div_nonpos_of_nonpos_of_nonneg hneg hu.le)
    have hround : round x ≤ 0 := mul_nonpos_of_nonpos_of_nonneg (by exact_mod_cast hnearest) hu.le
    exact hround.trans n.cast_nonneg
  · have hlog : Int.log 2 |x| < 53 := by
      rw [← Int.lt_zpow_iff_log_lt (by norm_num) (abs_pos.mpr hpos.ne'), abs_of_pos hpos]
      exact h.trans_lt (by exact_mod_cast hn)
    -- The integer is a multiple of the distance of the doubles.
    obtain ⟨k, hk⟩ : ∃ k : ℕ, 52 - Int.log 2 |x| = k := Int.eq_ofNat_of_zero_le (by omega)
    have hmultiple : (n : ℚ) = (n * 2 ^ k : ℤ) * ulp x := by
      rw [ulp, show Int.log 2 |x| - 52 = -(k : ℤ) by omega, zpow_neg]
      simp
    have hnearest : nearest (x / ulp x) ≤ (n * 2 ^ k : ℤ) := by
      refine nearest_le ((div_le_iff₀ hu).mpr ?_)
      rwa [← hmultiple]
    calc round x ≤ (n * 2 ^ k : ℤ) * ulp x := mul_le_mul_of_nonneg_right (by exact_mod_cast hnearest) hu.le
      _ = n := hmultiple.symm

theorem truncate_le {x : ℚ} (hx : 0 ≤ x) : (truncate x : ℚ) ≤ x := by
  rw [truncate, if_neg (not_lt.mpr hx)]
  exact Int.floor_le x

theorem truncate_nonpos {x : ℚ} (hx : x ≤ 0) : truncate x ≤ 0 := by
  unfold truncate
  split_ifs
  · exact Int.ceil_le.mpr (by simpa using hx)
  · exact Int.floor_nonpos hx

end Sentinel.Library.Binary64
