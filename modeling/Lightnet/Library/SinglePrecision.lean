import Mathlib.Data.Rat.Floor
import Mathlib.Tactic.Linarith
import Mathlib.Tactic.Positivity
import Mathlib.Tactic.Ring

/-!
# Single precision

A single precision number is the rational it stands for. `round` takes a rational to the nearest
number with a significand of 24 bits, ties to even; the range of the exponent is not bounded.
-/

namespace Single

def twoPow (e : ℤ) : ℚ := if 0 ≤ e then ((2 ^ e.toNat : ℕ) : ℚ) else 1 / ((2 ^ (-e).toNat : ℕ) : ℚ)

/-- The exponent of the leading bit. -/
def exponent (x : ℚ) : ℤ :=
  let e : ℤ := (Nat.log2 x.num.natAbs : ℤ) - Nat.log2 x.den
  if twoPow e ≤ |x| then e else e - 1

def roundHalfEven (x : ℚ) : ℤ :=
  let below := ⌊x⌋
  let rest := x - below
  if rest < 1 / 2 then below
  else if 1 / 2 < rest then below + 1
  else if below % 2 = 0 then below
  else below + 1

def round (x : ℚ) : ℚ :=
  if x = 0 then 0
  else
    let ulp := twoPow (exponent x - 23)
    roundHalfEven (x / ulp) * ulp

def add (x y : ℚ) : ℚ := round (x + y)

def sub (x y : ℚ) : ℚ := round (x - y)

def mul (x y : ℚ) : ℚ := round (x * y)

def div (x y : ℚ) : ℚ := round (x / y)

/-- Conversion to an unsigned integer drops the fraction. -/
def toNat (x : ℚ) : ℕ := ⌊x⌋.toNat

/-! ### The error of a rounding -/

theorem twoPow_eq_zpow (e : ℤ) : twoPow e = (2 : ℚ) ^ e := by
  unfold twoPow
  split_ifs with he
  · obtain ⟨n, rfl⟩ := Int.eq_ofNat_of_zero_le he
    simp
  · obtain ⟨n, hn⟩ := Int.eq_ofNat_of_zero_le (by omega : 0 ≤ -e)
    have he : e = -(n : ℤ) := by omega
    subst he
    simp

theorem twoPow_pos (e : ℤ) : 0 < twoPow e := by
  rw [twoPow_eq_zpow]
  exact zpow_pos two_pos e

/-- The leading bit of a number is not above it. -/
theorem twoPow_exponent_le {x : ℚ} (hx : x ≠ 0) : twoPow (exponent x) ≤ |x| := by
  unfold exponent
  dsimp only
  split_ifs with hle
  · exact hle
  · have hnum : 2 ^ Nat.log2 x.num.natAbs ≤ x.num.natAbs :=
      Nat.log2_self_le (Int.natAbs_ne_zero.mpr (Rat.num_ne_zero.mpr hx))
    have hden : x.den < 2 ^ (Nat.log2 x.den + 1) := Nat.lt_log2_self
    have habs : |x| = (x.num.natAbs : ℚ) / x.den := by
      conv_lhs => rw [← Rat.num_div_den x]
      rw [abs_div, Nat.abs_cast, ← Int.cast_abs, Int.abs_eq_natAbs]
      rfl
    have hsplit : ((Nat.log2 x.num.natAbs : ℤ) - Nat.log2 x.den - 1) =
        (Nat.log2 x.num.natAbs : ℤ) - ((Nat.log2 x.den + 1 : ℕ) : ℤ) := by
      push_cast
      ring
    rw [twoPow_eq_zpow, hsplit, zpow_sub₀ two_ne_zero, zpow_natCast, zpow_natCast, habs]
    have hnum' : (2 : ℚ) ^ Nat.log2 x.num.natAbs ≤ x.num.natAbs := by exact_mod_cast hnum
    have hden' : (x.den : ℚ) ≤ 2 ^ (Nat.log2 x.den + 1) := by exact_mod_cast hden.le
    have hpos : (0 : ℚ) < x.den := by exact_mod_cast x.den_pos
    exact div_le_div₀ (Nat.cast_nonneg _) hnum' hpos hden'

theorem abs_roundHalfEven_sub_le (x : ℚ) : |(roundHalfEven x : ℚ) - x| ≤ 1 / 2 := by
  have hlow := Int.floor_le x
  have hhigh := Int.lt_floor_add_one x
  unfold roundHalfEven
  dsimp only
  split_ifs with hlt hgt heven
  · rw [abs_le]
    constructor <;> linarith
  · push_cast
    rw [abs_le]
    constructor <;> linarith
  · rw [abs_le]
    constructor <;> linarith
  · push_cast
    rw [abs_le]
    constructor <;> linarith

/-- The relative error of a rounding is at most half a unit in the last place. -/
theorem abs_round_sub_le (x : ℚ) : |round x - x| ≤ |x| / 2 ^ 24 := by
  unfold round
  split_ifs with hx
  · simp [hx]
  · dsimp only
    have hpos := twoPow_pos (exponent x - 23)
    have herr := abs_roundHalfEven_sub_le (x / twoPow (exponent x - 23))
    have hulp : twoPow (exponent x - 23) * 2 ^ 23 ≤ |x| := by
      refine le_trans (le_of_eq ?_) (twoPow_exponent_le hx)
      rw [twoPow_eq_zpow, twoPow_eq_zpow, zpow_sub₀ two_ne_zero]
      norm_num
    set ulp := twoPow (exponent x - 23)
    have hcancel : x = x / ulp * ulp := (div_mul_cancel₀ x hpos.ne').symm
    have hscale : |(roundHalfEven (x / ulp) : ℚ) * ulp - x| =
        |(roundHalfEven (x / ulp) : ℚ) - x / ulp| * ulp := by
      conv_lhs => rw [hcancel]
      rw [div_mul_cancel₀ x hpos.ne', ← abs_of_pos hpos, ← abs_mul, abs_of_pos hpos, sub_mul,
        div_mul_cancel₀ x hpos.ne']
    rw [hscale]
    have hmul := mul_le_mul_of_nonneg_right herr hpos.le
    linarith

theorem round_le_mul {x : ℚ} (h : 0 ≤ x) : round x ≤ x * (1 + 1 / 2 ^ 24) := by
  have herr := (abs_le.mp (abs_round_sub_le x)).2
  rw [abs_of_nonneg h] at herr
  linarith

theorem mul_le_round {x : ℚ} (h : 0 ≤ x) : x * (1 - 1 / 2 ^ 24) ≤ round x := by
  have herr := (abs_le.mp (abs_round_sub_le x)).1
  rw [abs_of_nonneg h] at herr
  linarith

theorem toNat_le_of_lt {x : ℚ} {n : ℕ} (h : x < n + 1) : toNat x ≤ n := by
  unfold toNat
  have hfloor : ⌊x⌋ < (n : ℤ) + 1 := by
    rw [Int.floor_lt]
    exact_mod_cast h
  omega

theorem toNat_cast_le {x : ℚ} (h : 0 ≤ x) : (toNat x : ℚ) ≤ x := by
  unfold toNat
  have hfloor := Int.floor_le x
  have hcast : ((⌊x⌋.toNat : ℕ) : ℚ) = (⌊x⌋ : ℚ) := by
    exact_mod_cast Int.toNat_of_nonneg (Int.floor_nonneg.mpr h)
  rwa [hcast]

end Single
