import Mathlib.Order.Monotone.Basic
import Mathlib.Tactic.Linarith
import Mathlib.Tactic.Ring
import TrajectoryEvents.Binary64.Line

/-!
# Values on the line of doubles

The finite doubles stand one by one on a line of integers, their places. This module gives the
value that stands at a place, and says how far neighbours are apart: the distance is a power of
two, the same throughout a binade, and it doubles from one binade to the next.

Values are counted in halves of the smallest positive double. Every double is then an even integer,
and the half of a double is an integer still.

## Main definitions

* `value p`: the value at place `p`. Beyond the largest double the line goes on as if exponents had
  no bound, so that an infinity stands where the next binade would begin.
* `gap p`: the distance from the value at place `p` to the next one.

## Main results

* `value_lt_value`, `value_le_value`: later places hold greater values.
* `gap_cases`: two neighbouring gaps are equal, or one is twice the other and the place between
  them is even.
* `gap_le_gap`, `gap_le_gap_succ`, `gap_le_gap_pred`: gaps get smaller towards zero only.
* `mul_gap_le`, `gap_le_value`: a gap is small against the values at its ends.
* `value_of_steps`: in a binade, a value is a significand times the gap.
* `value_of_le`, `value_halve`: up to the second binade the value is twice the place; beyond it, a
  value is halved by going back one binade.
-/

namespace TrajectoryEvents.Binary64

/-! ### Magnitudes -/

/-- The exponent of the distance from the value of a magnitude to the next one. -/
def binade (n : ℕ) : ℕ := max 1 (n / 0x10000000000000)

/-- The value of a magnitude, counted in halves of the smallest positive double. -/
def magnitudeValue (n : ℕ) : ℕ := (n - (binade n - 1) * 0x10000000000000) * 2 ^ binade n

theorem one_le_binade (n : ℕ) : 1 ≤ binade n := le_max_left _ _

/-- The binade stays the same from one magnitude to the next, or a new one begins at a multiple of
its length. -/
theorem binade_succ (n : ℕ) :
    binade (n + 1) = binade n ∨
      binade (n + 1) = binade n + 1 ∧ n + 1 = (binade n + 1) * 0x10000000000000 := by
  unfold binade
  omega

/-- A magnitude is one binade after another, and in its binade it counts steps of one length. -/
theorem magnitudeValue_eq {k r : ℕ} (hk : 1 ≤ k) (hr : r ≤ 0x20000000000000)
    (hl : 1 < k → 0x10000000000000 ≤ r) :
    magnitudeValue ((k - 1) * 0x10000000000000 + r) = r * 2 ^ k := by
  unfold magnitudeValue
  rcases Nat.lt_or_eq_of_le hr with h | rfl
  · have hb : binade ((k - 1) * 0x10000000000000 + r) = k := by
      unfold binade
      omega
    rw [hb, Nat.add_sub_cancel_left]
  -- a full significand is the first one of the next binade, with half as many steps
  · have hb : binade ((k - 1) * 0x10000000000000 + 0x20000000000000) = k + 1 := by
      unfold binade
      omega
    have hs : (k - 1) * 0x10000000000000 + 0x20000000000000 - (k + 1 - 1) * 0x10000000000000 =
        0x10000000000000 := by omega
    rw [hb, hs, pow_succ]
    ring

theorem magnitudeValue_succ (n : ℕ) :
    magnitudeValue (n + 1) = magnitudeValue n + 2 ^ binade n := by
  have hn : (binade n - 1) * 0x10000000000000 ≤ n := by
    unfold binade
    omega
  rcases binade_succ n with h | ⟨h, hc⟩
  -- in the same binade the significand grows by one
  · unfold magnitudeValue
    rw [h, show n + 1 - (binade n - 1) * 0x10000000000000 =
      n - (binade n - 1) * 0x10000000000000 + 1 by omega]
    ring
  -- from the last significand of a binade, the step is still that of the old binade
  · have h1 := one_le_binade n
    unfold magnitudeValue
    rw [h, show n + 1 - (binade n + 1 - 1) * 0x10000000000000 = 0x10000000000000 by omega,
      show n - (binade n - 1) * 0x10000000000000 = 0x20000000000000 - 1 by omega, pow_succ]
    ring

/-! ### Places -/

/-- The value at a place. -/
def value : ℤ → ℤ
  | .ofNat n => magnitudeValue n
  | .negSucc n => -magnitudeValue (n + 1)

/-- The distance from the value at a place to the next one. -/
def gap (p : ℤ) : ℤ := value (p + 1) - value p

@[simp]
theorem value_natCast (n : ℕ) : value n = magnitudeValue n := rfl

@[simp]
theorem value_zero : value 0 = 0 := by
  simpa [magnitudeValue] using value_natCast 0

@[simp]
theorem value_neg (p : ℤ) : value (-p) = -value p := by
  match p with
  | .ofNat 0 => simp
  | .ofNat (n + 1) => rfl
  | .negSucc n => exact (neg_neg _).symm

theorem value_succ (p : ℤ) : value (p + 1) = value p + gap p := by
  unfold gap
  ring

theorem gap_natCast (n : ℕ) : gap n = 2 ^ binade n := by
  have h := value_natCast (n + 1)
  rw [magnitudeValue_succ] at h
  unfold gap
  push_cast at h
  rw [h, value_natCast]
  ring

/-- Gaps lie symmetrically around zero. -/
theorem gap_neg (p : ℤ) : gap (-p) = gap (p - 1) := by
  unfold gap
  rw [sub_add_cancel, value_neg, show -p + 1 = -(p - 1) by ring, value_neg]
  ring

/-- Every gap is a positive multiple of the smallest one. -/
theorem two_dvd_gap (p : ℤ) : 2 ∣ gap p ∧ 2 ≤ gap p := by
  have key (n : ℕ) : 2 ∣ gap n ∧ 2 ≤ gap n := by
    obtain ⟨k, hk⟩ := Nat.exists_eq_add_of_le' (one_le_binade n)
    rw [gap_natCast, hk, pow_succ]
    have : (0 : ℤ) < 2 ^ k := by positivity
    omega
  -- a gap below zero mirrors one above
  rcases lt_or_ge p 0 with h | h
  · have := key (-p - 1).toNat
    rwa [Int.toNat_of_nonneg (by omega), ← gap_neg, neg_neg] at this
  · have := key p.toNat
    rwa [Int.toNat_of_nonneg h] at this

/-- Later places hold greater values. -/
theorem value_lt_value {p q : ℤ} : value p < value q ↔ p < q := by
  have hmono : StrictMono value := strictMono_int_of_lt_succ fun p => by
    have := (two_dvd_gap p).2
    rw [value_succ]
    omega
  exact hmono.lt_iff_lt

theorem value_le_value {p q : ℤ} : value p ≤ value q ↔ p ≤ q := by
  rw [← not_lt, value_lt_value, not_lt]

/-- No two places hold the same value. -/
theorem value_inj {p q : ℤ} (h : value p = value q) : p = q :=
  le_antisymm (value_le_value.1 h.le) (value_le_value.1 h.ge)

/-- Every double is an even number of halves of the smallest one. -/
theorem even_value (p : ℤ) : 2 ∣ value p := by
  induction p using Int.induction_on with
  | zero => simp
  | succ n ih =>
    rw [value_succ]
    exact Int.dvd_add ih (two_dvd_gap _).1
  | pred n ih =>
    have h := value_succ (-n - 1)
    rw [sub_add_cancel] at h
    have := (two_dvd_gap (-n - 1)).1
    omega

private theorem gap_natCast_cases (n : ℕ) :
    gap (n + 1) = gap n ∨ gap (n + 1) = 2 * gap n ∧ ((n : ℤ) + 1) % 2 = 0 := by
  have h1 : gap ((n : ℤ) + 1) = 2 ^ binade (n + 1) := gap_natCast (n + 1)
  rw [h1, gap_natCast]
  rcases binade_succ n with h | ⟨h, hc⟩
  · exact .inl (by rw [h])
  · refine .inr ⟨by rw [h, pow_succ]; ring, ?_⟩
    omega

/-- Two neighbouring gaps are equal, or one is twice the other. In the second case the place
between them begins a binade, and is even. -/
theorem gap_cases (p : ℤ) :
    gap (p + 1) = gap p ∨
      (p + 1) % 2 = 0 ∧ (gap (p + 1) = 2 * gap p ∨ gap p = 2 * gap (p + 1)) := by
  rcases lt_or_ge p 0 with h | h
  · rcases lt_or_ge (p + 1) 0 with h' | h'
    -- both gaps lie below zero: they mirror two gaps above zero
    · have key := gap_natCast_cases (-p - 2).toNat
      rw [Int.toNat_of_nonneg (by omega)] at key
      have e1 : gap (p + 1) = gap (-p - 2) := by
        rw [← neg_neg (p + 1), gap_neg]
        ring_nf
      have e2 : gap p = gap (-p - 2 + 1) := by
        rw [← neg_neg p, gap_neg]
        ring_nf
      rw [e1, e2]
      omega
    -- the two gaps around zero mirror each other
    · left
      obtain rfl : p = -1 := by omega
      exact (gap_neg 1).symm
  · have key := gap_natCast_cases p.toNat
    rw [Int.toNat_of_nonneg h] at key
    omega

/-- Away from zero gaps do not get smaller. -/
theorem gap_le_gap {p q : ℤ} (h0 : 0 ≤ p) (h : p ≤ q) : gap p ≤ gap q := by
  obtain ⟨m, rfl⟩ := Int.eq_ofNat_of_zero_le h0
  obtain ⟨n, rfl⟩ := Int.eq_ofNat_of_zero_le (h0.trans h)
  have hb : binade m ≤ binade n := by
    unfold binade
    omega
  rw [gap_natCast, gap_natCast]
  exact pow_le_pow_right₀ (by norm_num) hb

/-- Behind a gap that is greater than the one before it, gaps do not get smaller. -/
theorem gap_le_gap_succ {p : ℤ} (h : gap (p - 1) < gap p) : gap p ≤ gap (p + 1) := by
  rcases lt_or_ge 0 p with h0 | h0
  · exact gap_le_gap h0.le (by omega)
  -- up to zero gaps do not get greater
  · have hle : gap (-p - 1) ≤ gap (-p) := by
      rcases eq_or_ne p 0 with rfl | hne
      · exact (gap_neg 1).le
      · exact gap_le_gap (by omega) (by omega)
    rw [gap_neg, show -p - 1 = -(p + 1) by ring, gap_neg, add_sub_cancel_right] at hle
    omega

/-- Before a gap that is greater than the one after it, gaps do not get greater. -/
theorem gap_le_gap_pred {p : ℤ} (h : gap p < gap (p - 1)) : gap (p - 1) ≤ gap (p - 2) := by
  -- this is the mirror image of `gap_le_gap_succ`
  have hmirror := gap_le_gap_succ (p := -p)
  rw [gap_neg, show -p - 1 = -(p + 1) by ring, show -p + 1 = -(p - 1) by ring, gap_neg, gap_neg,
    add_sub_cancel_right, show p - 1 - 1 = p - 2 by ring] at hmirror
  exact hmirror h

/-- From the second binade on, a gap is less than the value before it by a factor of `2 ^ 52`. -/
theorem mul_gap_le {p : ℤ} (h : 0x10000000000000 ≤ p) : 0x10000000000000 * gap p ≤ value p := by
  obtain ⟨n, rfl⟩ := Int.eq_ofNat_of_zero_le (by omega : 0 ≤ p)
  -- the value is a significand times the gap, and here the significand has all its bits
  have hs : 0x10000000000000 ≤ n - (binade n - 1) * 0x10000000000000 := by
    unfold binade
    omega
  rw [gap_natCast, value_natCast]
  unfold magnitudeValue
  push_cast
  gcongr
  exact_mod_cast hs

/-- The values of a binade are the multiples of its gap, from the first significand of the binade
up to the first one of the next. -/
theorem value_of_steps {k r : ℕ} (hr : r ≤ 0x20000000000000)
    (hl : 0 < k → 0x10000000000000 ≤ r) :
    value (k * 0x10000000000000 + r) = r * 2 ^ (k + 1) := by
  have h := value_natCast ((k + 1 - 1) * 0x10000000000000 + r)
  rw [magnitudeValue_eq (by omega) hr (by omega), Nat.add_sub_cancel] at h
  push_cast at h
  exact h

/-- Up to the second binade neighbours are as close as possible. -/
theorem value_of_le {p : ℤ} (h0 : 0 ≤ p) (h : p ≤ 0x20000000000000) : value p = 2 * p := by
  obtain ⟨n, rfl⟩ := Int.eq_ofNat_of_zero_le h0
  have hv := value_of_steps (k := 0) (r := n) (by omega) (by omega)
  rw [Nat.cast_zero, zero_mul, zero_add] at hv
  rw [hv]
  ring

/-- A positive double is at least as great as the gap after it. -/
theorem gap_le_value {p : ℤ} (h : 0 < p) : gap p ≤ value p := by
  rcases lt_or_ge p 0x10000000000000 with hp | hp
  · have h1 := value_of_le (p := p) (by omega) (by omega)
    have h2 := value_of_le (p := p + 1) (by omega) (by omega)
    have := value_succ p
    omega
  · have := mul_gap_le hp
    have := (two_dvd_gap p).2
    omega

/-- Beyond the second binade, the half of a value stands one binade earlier. -/
theorem value_halve {p : ℤ} (h : 0x20000000000000 ≤ p) :
    2 * value (p - 0x10000000000000) = value p := by
  obtain ⟨n, rfl⟩ := Int.eq_ofNat_of_zero_le (by omega : 0 ≤ p)
  obtain ⟨m, rfl⟩ := Nat.exists_eq_add_of_le' (by omega : 0x10000000000000 ≤ n)
  -- going back one binade keeps the significand
  have hb : binade (m + 0x10000000000000) = binade m + 1 := by
    unfold binade
    omega
  have hs : m + 0x10000000000000 - (binade m + 1 - 1) * 0x10000000000000 =
      m - (binade m - 1) * 0x10000000000000 := by
    unfold binade
    omega
  rw [show ((m + 0x10000000000000 : ℕ) : ℤ) - 0x10000000000000 = m by push_cast; ring,
    value_natCast, value_natCast]
  unfold magnitudeValue
  rw [hb, hs, pow_succ]
  push_cast
  ring

end TrajectoryEvents.Binary64
