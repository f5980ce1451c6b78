import Mathlib.Algebra.Order.Field.Power
import Mathlib.Data.Rat.Cast.Defs
import Mathlib.Tactic.Linarith
import Mathlib.Tactic.NormNum
import TrajectoryEvents.Binary64.Nearest

/-!
# The nearest double of an exact value

A quotient that happens to be the value of a double is rounded to that very double. The exponent of
its leading bit is computed from the lengths of numerator and denominator, and then it is found on
the grid of its binade without a remainder.

## Main results

* `floorLog2_spec`: the computed exponent is the one of the leading bit.
* `nearest_eq_of_div_eq`: a quotient equal to the value of a finite magnitude is rounded to it.
-/

namespace TrajectoryEvents.Binary64

/-- A dyadic number as a rational. -/
def Dyadic.toRat (v : Dyadic) : ℚ := v.significand * 2 ^ v.exponent

/-- A power with an integer exponent, computed from one power in the numerator and one in the
denominator, of which one is trivial. -/
theorem pow_toNat_div_pow_toNat {b : ℚ} (hb : b ≠ 0) (k : ℤ) :
    b ^ k.toNat / b ^ (-k).toNat = b ^ k := by
  rw [← zpow_natCast, ← zpow_natCast, ← zpow_sub₀ hb]
  congr 1
  omega

/-- Shifting numerator or denominator scales a quotient by a power of two. -/
theorem shiftLeft_div_shiftLeft (n d : ℕ) (k : ℤ) :
    ((n <<< (-k).toNat : ℕ) : ℚ) / (d <<< k.toNat : ℕ) = n / d / 2 ^ k := by
  have hpow := pow_toNat_div_pow_toNat (two_ne_zero (α := ℚ)) (-k)
  rw [neg_neg, zpow_neg] at hpow
  rw [Nat.shiftLeft_eq, Nat.shiftLeft_eq]
  push_cast
  rw [mul_div_mul_comm, hpow, div_eq_mul_inv (n / d : ℚ)]

variable {n d m : ℕ}

/-- Bounds on a number by the power of two below it. -/
private theorem log2_bounds (hn : 0 < n) :
    (2 : ℚ) ^ (n.log2 : ℤ) ≤ n ∧ (n : ℚ) < 2 ^ (n.log2 + 1 : ℤ) := by
  have hle : 2 ^ n.log2 ≤ n := Nat.log2_self_le hn.ne'
  have hlt : n < 2 ^ (n.log2 + 1) := Nat.lt_log2_self
  constructor
  · rw [zpow_natCast]
    exact_mod_cast hle
  · exact_mod_cast hlt

/-- The computed exponent is that of the power of two at or below the quotient. -/
theorem floorLog2_spec (hn : 0 < n) (hd : 0 < d) :
    (2 : ℚ) ^ floorLog2 n d ≤ n / d ∧ (n / d : ℚ) < 2 ^ (floorLog2 n d + 1) := by
  obtain ⟨hnl, hnu⟩ := log2_bounds hn
  obtain ⟨hdl, hdu⟩ := log2_bounds hd
  have hd' : (0 : ℚ) < d := by exact_mod_cast hd
  unfold floorLog2
  generalize he : (n.log2 : ℤ) - d.log2 = e
  -- the lengths leave two candidates
  have lower : (2 : ℚ) ^ (e - 1) ≤ n / d := by
    rw [le_div_iff₀ hd']
    calc (2 : ℚ) ^ (e - 1) * d ≤ 2 ^ (e - 1) * 2 ^ (d.log2 + 1 : ℤ) := by gcongr
      _ = 2 ^ (n.log2 : ℤ) := by
        rw [← zpow_add₀ two_ne_zero]
        congr 1
        omega
      _ ≤ n := hnl
  have upper : (n / d : ℚ) < 2 ^ (e + 1) := by
    rw [div_lt_iff₀ hd']
    calc (n : ℚ) < 2 ^ (n.log2 + 1 : ℤ) := hnu
      _ = 2 ^ (e + 1) * 2 ^ (d.log2 : ℤ) := by
        rw [← zpow_add₀ two_ne_zero]
        congr 1
        omega
      _ ≤ 2 ^ (e + 1) * d := by gcongr
  -- the comparison of the shifted numbers decides between them
  have hcompare : d <<< e.toNat ≤ n <<< (-e).toNat ↔ (2 : ℚ) ^ e ≤ n / d := by
    have hscale := shiftLeft_div_shiftLeft n d e
    have hpos : (0 : ℚ) < (d <<< e.toNat : ℕ) := by
      rw [Nat.shiftLeft_eq]
      positivity
    rw [← one_le_div₀ (zpow_pos two_pos e), ← hscale, one_le_div₀ hpos]
    exact_mod_cast Iff.rfl
  dsimp only
  split
  next h => exact ⟨hcompare.1 h, upper⟩
  next h =>
    rw [sub_add_cancel]
    exact ⟨lower, not_le.1 (mt hcompare.2 h)⟩

/-- A quotient without remainder is rounded to itself. -/
theorem roundDiv_of_div_eq {s : ℕ} (hd : 0 < d) (h : (n / d : ℚ) = s) : roundDiv n d = s := by
  have hmul : n = s * d := by
    rw [div_eq_iff (by positivity)] at h
    exact_mod_cast h
  rw [roundDiv, hmul, Nat.mul_mod_left, Nat.mul_div_cancel _ hd]
  exact if_pos (by omega)

/-- The significand of a finite magnitude has at most fifty-three bits, and fewer only where the
exponent is the smallest one. -/
theorem valueOf_bounds (m : ℕ) :
    (valueOf m).significand < 0x20000000000000 ∧ -1074 ≤ (valueOf m).exponent ∧
      (-1074 < (valueOf m).exponent → 0x10000000000000 ≤ (valueOf m).significand) := by
  unfold valueOf
  split <;> dsimp only <;> omega

/-- A magnitude is the number of steps in the binades below its own, and in its own. -/
theorem steps_valueOf (m : ℕ) :
    ((valueOf m).exponent + 1074).toNat * 0x10000000000000 + (valueOf m).significand = m := by
  unfold valueOf
  split <;> dsimp only <;> omega

theorem significand_pos (hm : 0 < m) : 0 < (valueOf m).significand := by
  unfold valueOf
  split <;> dsimp only <;> omega

/-- A quotient that is the value of a magnitude has its leading bit where the value has it. -/
theorem unit_of_div_eq (hn : 0 < n) (hd : 0 < d) (h : (n / d : ℚ) = (valueOf m).toRat) :
    max (floorLog2 n d - 52) (-1074) = (valueOf m).exponent := by
  obtain ⟨hs, hmin, hfull⟩ := valueOf_bounds m
  obtain ⟨hl, hu⟩ := floorLog2_spec hn hd
  rw [h, Dyadic.toRat] at hl hu
  generalize (valueOf m).significand = s at *
  generalize (valueOf m).exponent = e at *
  -- the significand is below `2 ^ 53`
  have hupper : floorLog2 n d < 53 + e := by
    rw [← zpow_lt_zpow_iff_right₀ (one_lt_two (α := ℚ)), zpow_add₀ two_ne_zero]
    refine hl.trans_lt ?_
    gcongr
    exact_mod_cast hs
  have hlower (he : -1074 < e) : 52 + e < floorLog2 n d + 1 := by
    rw [← zpow_lt_zpow_iff_right₀ (one_lt_two (α := ℚ)), zpow_add₀ two_ne_zero]
    refine lt_of_le_of_lt ?_ hu
    gcongr
    exact_mod_cast hfull he
  rcases hmin.eq_or_lt with he | he
  · omega
  · have := hlower he
    omega

/-- A quotient that is the value of a finite magnitude is rounded to it. -/
theorem nearest_eq_of_div_eq (hm : m < infiniteMagnitude) (hn : 0 < n) (hd : 0 < d)
    (h : (n / d : ℚ) = (valueOf m).toRat) : nearest n d = m := by
  have hround : roundDiv (n <<< (-(valueOf m).exponent).toNat) (d <<< (valueOf m).exponent.toNat) =
      (valueOf m).significand := by
    refine roundDiv_of_div_eq ?_ ?_
    · rw [Nat.shiftLeft_eq]
      positivity
    · rw [shiftLeft_div_shiftLeft, h, Dyadic.toRat, mul_div_cancel_right₀]
      exact zpow_ne_zero _ two_ne_zero
  unfold nearest
  dsimp only
  rw [unit_of_div_eq hn hd h, hround, steps_valueOf, min_eq_left hm.le]

end TrajectoryEvents.Binary64
