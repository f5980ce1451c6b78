import Mathlib.Tactic.Ring
import TrajectoryEvents.Decimal.Shortest
import TrajectoryEvents.Proofs.Binary64.Nearest

/-!
# Shortest decimals read back

Every candidate for the shortest decimal of a double is tested by reading it back. If none passes,
the exact value is taken instead, and that is read back as well: a decimal number equal to the value
of a double is of a width at which reading rounds it, and rounding leaves it alone.

## Main definitions

* `Decimal.IsNormal`: a decimal number without trailing zeros.
* `Decimal.toRat`: a decimal number as a rational.

## Main results

* `Decimal.normalize_mul_pow`, `Decimal.IsNormal.normalize_eq`: trailing zeros do not matter.
* `Decimal.toMagnitude_shortest`: the shortest decimal of a finite magnitude reads back as it.
* `Decimal.isNormal_shortest`: it has no trailing zeros.
-/

namespace TrajectoryEvents

variable {n m : ℕ}

/-! ### Numbers of digits -/

theorem lt_pow_digitCount (n : ℕ) : n < 10 ^ digitCount n := by
  fun_induction digitCount n with
  | case1 n h => simpa using h
  | case2 n h ih =>
    rw [pow_succ]
    omega

theorem pow_digitCount_le (hn : 0 < n) : 10 ^ (digitCount n - 1) ≤ n := by
  fun_induction digitCount n with
  | case1 n h => simpa using Nat.succ_le_of_lt hn
  | case2 n h ih =>
    have hpos := digitCount_pos (n / 10)
    obtain ⟨k, hk⟩ := Nat.exists_eq_add_of_lt hpos
    have hle := ih (by omega)
    rw [hk, zero_add, Nat.add_sub_cancel] at hle ⊢
    rw [pow_succ]
    omega

namespace Decimal

/-! ### Normal forms -/

/-- A decimal number without trailing zeros in its coefficient, unless it is zero. -/
def IsNormal (d : Decimal) : Prop := d = zero ∨ d.coefficient % 10 ≠ 0

theorem isNormal_normalize (c : ℕ) (e : ℤ) : (normalize c e).IsNormal := by
  fun_induction normalize c e with
  | case1 e => exact .inl rfl
  | case2 c e h0 h ih => exact ih
  | case3 c e h0 h => exact .inr h

/-- Without trailing zeros there is nothing to remove. -/
theorem IsNormal.normalize_eq {d : Decimal} (h : d.IsNormal) :
    normalize d.coefficient d.exponent = d := by
  rcases h with rfl | h
  · simp [normalize, zero]
  · have h0 : d.coefficient ≠ 0 := fun h0 => h (by rw [h0])
    rw [normalize, if_neg h0, if_neg h]

/-- Trailing zeros are removed, however many there are. -/
theorem normalize_mul_pow (c k : ℕ) (e : ℤ) : normalize (c * 10 ^ k) (e - k) = normalize c e := by
  induction k generalizing e with
  | zero => simp
  | succ k ih =>
    rw [normalize]
    split
    next h0 =>
      have hc : c = 0 := by
        rcases Nat.mul_eq_zero.1 h0 with h | h
        · exact h
        · exact absurd h (by positivity)
      simp [hc, normalize]
    next h0 =>
      have hmul : c * 10 ^ (k + 1) = c * 10 ^ k * 10 := by ring
      rw [if_pos (by omega), hmul, Nat.mul_div_cancel _ (by decide), ← ih e]
      congr 1
      push_cast
      ring

/-! ### Values -/

/-- A decimal number as a rational. -/
def toRat (d : Decimal) : ℚ := d.coefficient * 10 ^ d.exponent

theorem toRat_normalize (c : ℕ) (e : ℤ) : (normalize c e).toRat = c * 10 ^ e := by
  fun_induction normalize c e with
  | case1 e => simp [toRat, zero]
  | case2 c e h0 h ih =>
    have hc : (c : ℚ) = (c / 10 : ℕ) * 10 := by
      exact_mod_cast (Nat.div_mul_cancel (Nat.dvd_of_mod_eq_zero h)).symm
    rw [ih, zpow_add_one₀ (by norm_num), hc]
    ring
  | case3 c e h0 h => rfl

/-- The width of a nonzero decimal number bounds it by powers of ten. -/
theorem width_bounds {d : Decimal} (hd : 0 < d.coefficient) :
    (10 : ℚ) ^ (d.width - 1) ≤ d.toRat ∧ d.toRat < 10 ^ d.width := by
  have hl := pow_digitCount_le hd
  have hu := lt_pow_digitCount d.coefficient
  have hpos := digitCount_pos d.coefficient
  unfold width toRat
  constructor
  · have hexp : (digitCount d.coefficient : ℤ) + d.exponent - 1 =
        (digitCount d.coefficient - 1 : ℕ) + d.exponent := by omega
    rw [hexp, zpow_add₀ (by norm_num), zpow_natCast]
    gcongr
    exact_mod_cast hl
  · rw [zpow_add₀ (by norm_num), zpow_natCast]
    gcongr
    exact_mod_cast hu

end Decimal

/-! ### Values of doubles -/

namespace Binary64

/-- The values of the finite magnitudes but zero lie between the smallest double and the power of
two beyond the largest one. -/
theorem toRat_valueOf_bounds (h0 : 0 < m) (hm : m < infiniteMagnitude) :
    (2 : ℚ) ^ (-1074 : ℤ) ≤ (valueOf m).toRat ∧ (valueOf m).toRat < 2 ^ (1024 : ℤ) := by
  obtain ⟨hs, hmin, -⟩ := valueOf_bounds m
  have hpos := significand_pos h0
  have hmax : (valueOf m).exponent ≤ 971 := by
    unfold infiniteMagnitude at hm
    unfold valueOf
    split <;> dsimp only <;> omega
  unfold Dyadic.toRat
  generalize (valueOf m).significand = s at *
  generalize (valueOf m).exponent = e at *
  constructor
  · calc (2 : ℚ) ^ (-1074 : ℤ) ≤ 2 ^ e := zpow_le_zpow_right₀ one_le_two hmin
      _ ≤ s * 2 ^ e := le_mul_of_one_le_left (by positivity) (by exact_mod_cast hpos)
  · calc (s : ℚ) * 2 ^ e < 2 ^ (53 : ℤ) * 2 ^ e := by
          gcongr
          exact_mod_cast hs
      _ = 2 ^ (53 + e) := (zpow_add₀ two_ne_zero _ _).symm
      _ ≤ 2 ^ (1024 : ℤ) := zpow_le_zpow_right₀ one_le_two (by omega)

end Binary64

namespace Decimal

open Binary64

/-- Thirteen bits make no more than four digits. -/
private theorem two_pow_le_ten_pow (k : ℕ) : (2 : ℚ) ^ (13 * k) ≤ 10 ^ (4 * k) := by
  rw [pow_mul, pow_mul]
  gcongr
  norm_num

/-- A decimal number in the range of the finite doubles is neither too wide nor too narrow to be
rounded. -/
theorem width_of_bounds {d : Decimal} (hd : 0 < d.coefficient)
    (hl : (2 : ℚ) ^ (-1074 : ℤ) ≤ d.toRat) (hu : d.toRat < 2 ^ (1024 : ℤ)) :
    -340 ≤ d.width ∧ d.width ≤ 320 := by
  obtain ⟨hwl, hwu⟩ := width_bounds hd
  have h10 : (1 : ℚ) < 10 := by norm_num
  constructor
  · have hsmall : (10 : ℚ) ^ (-340 : ℤ) ≤ 2 ^ (-1074 : ℤ) := by
      rw [zpow_neg, zpow_neg]
      refine inv_anti₀ (by positivity) ?_
      calc (2 : ℚ) ^ (1074 : ℤ) ≤ 2 ^ (13 * 85 : ℤ) := zpow_le_zpow_right₀ one_le_two (by decide)
        _ ≤ 10 ^ (340 : ℤ) := two_pow_le_ten_pow 85
    have := (zpow_lt_zpow_iff_right₀ h10).1 (hsmall.trans_lt (hl.trans_lt hwu))
    omega
  · have hlarge : (2 : ℚ) ^ (1024 : ℤ) ≤ 10 ^ (320 : ℤ) :=
      calc (2 : ℚ) ^ (1024 : ℤ) ≤ 2 ^ (13 * 80 : ℤ) := zpow_le_zpow_right₀ one_le_two (by decide)
        _ ≤ 10 ^ (320 : ℤ) := two_pow_le_ten_pow 80
    have := (zpow_lt_zpow_iff_right₀ h10).1 (hwl.trans_lt (hu.trans_le hlarge))
    omega

/-- A decimal number that is the value of a finite magnitude is read as it. -/
theorem toMagnitude_of_toRat_eq {d : Decimal} (h0 : 0 < m) (hm : m < infiniteMagnitude)
    (h : d.toRat = (valueOf m).toRat) : d.toMagnitude = m := by
  obtain ⟨hl, hu⟩ := toRat_valueOf_bounds h0 hm
  rw [← h] at hl hu
  have hd : 0 < d.coefficient := by
    by_contra hzero
    have hv : d.toRat = 0 := by simp [toRat, Nat.eq_zero_of_not_pos hzero]
    rw [hv] at hl
    exact absurd hl (not_le.2 (zpow_pos two_pos _))
  obtain ⟨hwl, hwu⟩ := width_of_bounds hd hl hu
  rw [toMagnitude, if_neg hd.ne', if_neg (by omega), if_neg (by omega)]
  refine nearest_eq_of_div_eq hm (by positivity) (by positivity) ?_
  rw [← h, toRat, ← pow_toNat_div_pow_toNat (by norm_num)]
  push_cast
  ring

/-- The exact value of a dyadic number. -/
theorem toRat_ofDyadic (v : Binary64.Dyadic) : (ofDyadic v).toRat = v.toRat := by
  unfold ofDyadic Binary64.Dyadic.toRat
  split
  next h =>
    rw [toRat_normalize, Nat.shiftLeft_eq, zpow_zero, mul_one]
    obtain ⟨k, hk⟩ := Int.eq_ofNat_of_zero_le h
    rw [hk]
    push_cast
    rfl
  next h =>
    obtain ⟨k, hk⟩ : ∃ k : ℕ, v.exponent = -k := ⟨(-v.exponent).toNat, by omega⟩
    -- a negative power of two is one of ten times a power of five
    have hpow : (5 : ℚ) ^ k * 10 ^ (-k : ℤ) = 2 ^ (-k : ℤ) := by
      rw [show (10 : ℚ) = 5 * 2 by norm_num, mul_zpow, zpow_neg, zpow_natCast, ← mul_assoc,
        mul_inv_cancel₀ (by positivity), one_mul]
    rw [toRat_normalize, hk, neg_neg, Int.toNat_natCast]
    push_cast
    rw [mul_assoc, hpow]

theorem isNormal_ofDyadic (v : Binary64.Dyadic) : (ofDyadic v).IsNormal := by
  unfold ofDyadic
  split
  · exact isNormal_normalize _ _
  · exact isNormal_normalize _ _

/-! ### Shortest decimals -/

/-- A candidate of a grid has no trailing zeros. -/
theorem isNormal_of_onGrid? {tie : Tie} {magnitude n d : ℕ} {exponent : ℤ} {decimal : Decimal}
    (h : onGrid? tie magnitude n d exponent = some decimal) : decimal.IsNormal := by
  unfold onGrid? at h
  dsimp only at h
  split at h
  · cases h
  all_goals
    -- whichever neighbour is taken, it has been normalized
    repeat' split at h
    all_goals
      cases h
      exact isNormal_normalize _ _

/-- The shortest decimal comes from a grid, or it is the exact value. -/
theorem shortest_cases (tie : Tie) (h0 : 0 < m) :
    (∃ n d exponent, onGrid? tie m n d exponent = some (shortest tie m)) ∨
      shortest tie m = ofDyadic (valueOf m) := by
  unfold shortest
  rw [if_neg h0.ne']
  dsimp only
  split
  next decimal h =>
    obtain ⟨k, -, hk⟩ := List.exists_of_findSome?_eq_some h
    exact .inl ⟨_, _, _, hk⟩
  next => exact .inr rfl

/-- The shortest decimal has no trailing zeros. -/
theorem isNormal_shortest (tie : Tie) (m : ℕ) : (shortest tie m).IsNormal := by
  rcases Nat.eq_zero_or_pos m with rfl | h0
  · exact .inl rfl
  rcases shortest_cases tie h0 with ⟨n, d, exponent, h⟩ | h
  · exact isNormal_of_onGrid? h
  · rw [h]
    exact isNormal_ofDyadic _

/-- The shortest decimal of a finite magnitude reads back as that magnitude. -/
theorem toMagnitude_shortest (tie : Tie) (hm : m < infiniteMagnitude) :
    (shortest tie m).toMagnitude = m := by
  rcases Nat.eq_zero_or_pos m with rfl | h0
  · rfl
  rcases shortest_cases tie h0 with ⟨n, d, exponent, h⟩ | h
  · exact toMagnitude_of_onGrid? h
  · rw [h]
    exact toMagnitude_of_toRat_eq h0 hm (toRat_ofDyadic _)

end Decimal

end TrajectoryEvents
