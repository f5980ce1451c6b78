import TrajectoryEvents.Proofs.Binary64.Spacing

/-!
# Rounding to the line of doubles

`Rounds x p` says that the double nearest to `x` stands at place `p`, where `x` is counted in halves
of the smallest positive double, as `value` is. Halfway between two doubles the even place is taken.
Whatever lies beyond the largest double by half a gap or more rounds to an infinity.

## Main results

* `Rounds.mono`: rounding keeps the order.
* `rounds_value`: a double rounds to itself.
* `Rounds.value_eq_of_even`, `Rounds.value_of_odd`: small numbers are kept, or move by one.
* `Rounds.error_le`: other numbers move by at most one part in `2 ^ 53`.
* `Rounds.two_mul_le`, `Rounds.two_mul_advance_le`: a duration that rounds to no more than a step,
  and a step from one double to another, exceed the exact step by half of it at most.
-/

namespace TrajectoryEvents.Binary64

/-- The place of positive infinity. -/
def top : ℤ := 0x7ff0000000000000

/-- A number does not lie below the ones that round to a place. -/
def Reaches (x p : ℤ) : Prop :=
  value (p - 1) + value p < 2 * x ∨ value (p - 1) + value p = 2 * x ∧ p % 2 = 0

/-- A number does not lie above the ones that round to a place. -/
def StaysBelow (x p : ℤ) : Prop :=
  2 * x < value p + value (p + 1) ∨ 2 * x = value p + value (p + 1) ∧ p % 2 = 0

/-- The double nearest to a number stands at a place. -/
structure Rounds (x p : ℤ) : Prop where
  neg_top_le : -top ≤ p
  le_top : p ≤ top
  reaches : p = -top ∨ Reaches x p
  staysBelow : p = top ∨ StaysBelow x p

namespace Rounds

variable {x y p q : ℤ}

/-- Rounding keeps the order. -/
theorem mono (hx : Rounds x p) (hy : Rounds y q) (h : x ≤ y) : p ≤ q := by
  by_contra hlt
  have hq : q ≠ top := by
    have := hx.le_top
    omega
  have hp : p ≠ -top := by
    have := hy.neg_top_le
    omega
  have lower := hx.reaches.resolve_left hp
  have upper := hy.staysBelow.resolve_left hq
  -- the numbers that round to `q` end before those that round to `p` begin
  have h1 : value q ≤ value (p - 1) := value_le_value.2 (by omega)
  have h2 : value (q + 1) ≤ value p := value_le_value.2 (by omega)
  unfold Reaches at lower
  unfold StaysBelow at upper
  have h3 : value q = value (p - 1) := by omega
  have := value_inj h3
  omega

/-- The result of rounding is unique. -/
theorem unique (hp : Rounds x p) (hq : Rounds x q) : p = q :=
  Int.le_antisymm (hp.mono hq (Int.le_refl x)) (hq.mono hp (Int.le_refl x))

/-- Rounding treats both signs alike. -/
theorem neg (h : Rounds x p) : Rounds (-x) (-p) where
  neg_top_le := Int.neg_le_neg h.le_top
  le_top := by
    have := h.neg_top_le
    omega
  reaches := h.staysBelow.imp (fun hp => by rw [hp]) fun hs => by
    unfold StaysBelow at hs
    unfold Reaches
    rw [show -p - 1 = -(p + 1) by ring, value_neg, value_neg]
    omega
  staysBelow := h.reaches.imp (fun hp => by rw [hp, neg_neg]) fun hs => by
    unfold Reaches at hs
    unfold StaysBelow
    rw [show -p + 1 = -(p - 1) by ring, value_neg, value_neg]
    omega

end Rounds

/-- A double rounds to itself. -/
theorem rounds_value {p : ℤ} (h1 : -top ≤ p) (h2 : p ≤ top) : Rounds (value p) p := by
  have hl : value (p - 1) < value p := value_lt_value.2 (by omega)
  have hu : value p < value (p + 1) := value_lt_value.2 (by omega)
  exact ⟨h1, h2, .inr (.inl (by omega)), .inr (.inl (by omega))⟩

namespace Rounds

variable {x p q : ℤ}

/-- What is at most a double does not round past it. -/
theorem le_of_le_value (h : Rounds x p) (h1 : -top ≤ q) (h2 : q ≤ top) (hx : x ≤ value q) :
    p ≤ q :=
  h.mono (rounds_value h1 h2) hx

/-- What is at least a double does not round to one before it. -/
theorem le_of_value_le (h : Rounds x p) (h1 : -top ≤ q) (h2 : q ≤ top) (hx : value q ≤ x) :
    q ≤ p :=
  (rounds_value h1 h2).mono h hx

/-- What exceeds the middle between two doubles rounds at least to the greater one. So does the
middle itself, if the greater double has the even place. -/
theorem lt_of_middle (h : Rounds x p) (hq : q < top)
    (hx : value q + value (q + 1) < 2 * x ∨ value q + value (q + 1) = 2 * x ∧ q % 2 = 1) :
    q < p := by
  by_contra hle
  -- what rounds to `q` or to a place before it does not exceed the middle after `q`
  have upper := h.staysBelow.resolve_left (by omega)
  have h1 : value p ≤ value q := value_le_value.2 (by omega)
  have h2 : value (p + 1) ≤ value (q + 1) := value_le_value.2 (by omega)
  unfold StaysBelow at upper
  have h3 : value p = value q := by omega
  have := value_inj h3
  omega

/-- What stays below the middle between two doubles rounds at most to the smaller one. So does the
middle itself, if the smaller double has the even place. -/
theorem gt_of_middle (h : Rounds x p) (hq : -top < q)
    (hx : 2 * x < value (q - 1) + value q ∨ 2 * x = value (q - 1) + value q ∧ q % 2 = 1) :
    p < q := by
  -- this is the mirror image of `lt_of_middle`
  have := h.neg.lt_of_middle (q := -q) (by omega) (by
    rw [show -q + 1 = -(q - 1) by ring, value_neg, value_neg]
    omega)
  omega

/-! ### How far numbers move -/

/-- The double at a small place is twice the place. -/
private theorem le_of_lt_two_pow (h : Rounds x p) (h0 : 0 ≤ x) (hx : x ≤ 0x40000000000000) :
    0 ≤ p ∧ p ≤ 0x20000000000000 := by
  constructor
  · exact h.le_of_value_le (by decide) (by decide) (by simpa using h0)
  · refine h.le_of_le_value (by decide) (by decide) ?_
    rw [value_of_le (by decide) (by decide)]
    omega

/-- A small number that is even is a double, and is kept. -/
theorem value_eq_of_even (h : Rounds x p) (h0 : 0 ≤ x) (hx : x ≤ 0x40000000000000)
    (h2 : 2 ∣ x) : value p = x := by
  obtain ⟨n, rfl⟩ := h2
  -- up to the second binade, `2 * n` is the value at place `n`
  have hv : value n = 2 * n := value_of_le (by omega) (by omega)
  have hn : Rounds (2 * n) n := by
    have := rounds_value (p := n) (by unfold top; omega) (by unfold top; omega)
    rwa [hv] at this
  rw [h.unique hn, hv]

/-- A small number that is odd moves to the neighbour with the even place. -/
theorem value_of_odd (h : Rounds x p) (h0 : 0 ≤ x) (hx : x < 0x40000000000000)
    (h2 : ¬ 2 ∣ x) : (value p = x - 1 ∨ value p = x + 1) ∧ 4 ∣ value p := by
  obtain ⟨hp0, hp⟩ := h.le_of_lt_two_pow h0 (by omega)
  have hv : value p = 2 * p := value_of_le hp0 hp
  have lower := h.reaches.resolve_left (by unfold top; omega)
  have upper := h.staysBelow.resolve_left (by unfold top; omega)
  unfold Reaches at lower
  unfold StaysBelow at upper
  -- the neighbours stand two apart, so an odd number lies in the middle of a gap
  have hl : p = 0 ∨ value (p - 1) = 2 * (p - 1) := by
    rcases eq_or_ne p 0 with h | h
    · exact .inl h
    · exact .inr (value_of_le (by omega) (by omega))
  rcases lt_or_ge p 0x20000000000000 with hlt | hge
  · have hu : value (p + 1) = 2 * (p + 1) := value_of_le (by omega) (by omega)
    have h1 : value (0 - 1) = -2 := rfl
    rcases hl with rfl | hl <;> omega
  · omega

/-- A number that is not small moves by at most one part in `2 ^ 53`. -/
theorem error_le (h : Rounds x p) (hx : 0x40000000000000 ≤ x) (hp : p < top) :
    0x20000000000000 * (value p - x) ≤ x ∧ 0x20000000000000 * (x - value p) ≤ x := by
  have hlow : 0x20000000000000 ≤ p := by
    refine h.le_of_value_le (by decide) (by decide) ?_
    rwa [value_of_le (by decide) (by decide)]
  have lower := h.reaches.resolve_left (by unfold top; omega)
  have upper := h.staysBelow.resolve_left (by omega)
  unfold Reaches at lower
  unfold StaysBelow at upper
  -- the number moves by half a gap at most, on either side
  have e1 := value_succ p
  have e2 := value_succ (p - 1)
  rw [sub_add_cancel] at e2
  have g1 := mul_gap_le (p := p) (by omega)
  have g2 := mul_gap_le (p := p - 1) (by omega)
  have := (two_dvd_gap p).2
  have := (two_dvd_gap (p - 1)).2
  omega

/-- What rounds to no more than a positive double exceeds it by half of it at most. -/
theorem two_mul_le (h : Rounds x p) (hq : 0 < q) (hp : p < top) (hpq : p ≤ q) :
    2 * x ≤ 3 * value q := by
  have upper := h.staysBelow.resolve_left hp.ne
  have h1 : value p ≤ value q := value_le_value.2 hpq
  have h2 : value (p + 1) ≤ value (q + 1) := value_le_value.2 (by omega)
  -- the number is below the middle of the gap after `q`
  have hsucc := value_succ q
  have hgap := gap_le_value hq
  unfold StaysBelow at upper
  omega

/-- A rounded sum that passes more than one double advances by one and a half times the summand at
most. -/
theorem two_mul_advance_le {a : ℤ} (h : Rounds (value a + x) p) (ha : -top ≤ a) (hp : a + 1 < p) :
    2 * (value p - value a) ≤ 3 * x := by
  have lower := h.reaches.resolve_left (by omega)
  have hA : value a ≤ value (p - 2) := value_le_value.2 (by omega)
  -- the last gap, half of which rounding may add, is at most twice the one before it
  have hlast := value_succ (p - 1)
  have hprev := value_succ (p - 2)
  have hratio := gap_cases (p - 2)
  have hpos := (two_dvd_gap (p - 2)).2
  rw [show p - 2 + 1 = p - 1 by ring] at hprev hratio
  rw [sub_add_cancel] at hlast
  unfold Reaches at lower
  omega

end Rounds

end TrajectoryEvents.Binary64
