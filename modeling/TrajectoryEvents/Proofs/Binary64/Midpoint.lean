import TrajectoryEvents.Proofs.Binary64.Rounding

/-!
# The rounded midpoint of two doubles

The midpoint of an interval is computed as `a + 0.5 * (b - a)`, with every operation rounded. If
the width does not overflow, the result lies strictly between `a` and `b` whenever some double does,
and it leaves less than the whole on either side by a constant factor.

The gap next to an end of the interval may be as much as two thirds of the width, if the interval
spans two gaps of different binades. Rounding moves a large width by too little to matter. A small
width is exact, and only halving it can move it, by one at most; if this takes the result to the
middle of a gap, the even place is the one inside the interval.

## Main results

* `midpoint_between`: the rounded midpoint lies strictly inside an interval, if some double does.
* `midpoint_contracts`: it leaves at most seven tenths of the interval on either side, plus the
  smallest double.
-/

namespace TrajectoryEvents.Binary64

variable {a b d h n m : ℤ}

/-- The half of a width, rounded, is the half itself if the width is large. Otherwise the width is
exact, and the half moves to a neighbour with the even place if it is odd. -/
private theorem rounds_half_width (hab : a < b) (hd : Rounds (value b - value a) d) (hdt : d < top)
    (hn : 2 * n = value d) (hh : Rounds n h) :
    (0x40000000000000 < value b - value a ∧ 2 * value h = value d) ∨
      (2 * n = value b - value a ∧
        (value h = n ∨ (value h = n - 1 ∨ value h = n + 1) ∧ 4 ∣ value h ∧ ¬ 2 ∣ n)) := by
  have hpos : value a < value b := value_lt_value.2 hab
  have ea := even_value a
  have eb := even_value b
  rcases lt_or_ge 0x40000000000000 (value b - value a) with hw | hw
  · left
    have hlow : 0x20000000000000 ≤ d := by
      refine hd.le_of_value_le (by decide) (by decide) ?_
      rw [value_of_le (by decide) (by decide)]
      omega
    have hhalf := value_halve hlow
    -- the half is a double, one binade earlier
    have hself : Rounds n (d - 0x10000000000000) := by
      rw [show n = value (d - 0x10000000000000) by omega]
      exact rounds_value (by unfold top; omega) (by omega)
    rw [hh.unique hself]
    exact ⟨hw, hhalf⟩
  -- a small width is even, as both ends are, and needs no rounding
  · right
    have hexact := hd.value_eq_of_even (by omega) hw (by omega)
    refine ⟨by omega, ?_⟩
    by_cases h2 : 2 ∣ n
    · exact .inl (hh.value_eq_of_even (by omega) (by omega) h2)
    · obtain ⟨h3, h4⟩ := hh.value_of_odd (by omega) (by omega) h2
      exact .inr ⟨h3, h4, h2⟩

/-- The rounded midpoint of an interval lies strictly inside it, if some double does. -/
theorem midpoint_between (ha : -top ≤ a) (hb : b ≤ top) (hab : a + 1 < b)
    (hd : Rounds (value b - value a) d) (hdt : d < top) (hn : 2 * n = value d) (hh : Rounds n h)
    (hm : Rounds (value a + value h) m) : a < m ∧ m < b := by
  have half := rounds_half_width (by omega) hd hdt hn hh
  -- the interval spans at least the two gaps at either end
  have first : value a + gap a + gap (a + 1) ≤ value b := by
    rw [← value_succ, ← value_succ]
    exact value_le_value.2 (by omega)
  have last : value a + gap (b - 2) + gap (b - 1) ≤ value b := by
    have h1 := value_succ (b - 2)
    have h2 := value_succ (b - 1)
    rw [show b - 2 + 1 = b - 1 by ring] at h1
    rw [sub_add_cancel] at h2
    have : value a ≤ value (b - 2) := value_le_value.2 (by omega)
    omega
  -- of these two gaps, one is at most twice the other
  have g1 := gap_cases a
  have g2 := gap_cases (b - 2)
  rw [show b - 2 + 1 = b - 1 by ring] at g2
  have p1 := two_dvd_gap a
  have p2 := two_dvd_gap (a + 1)
  have p3 := two_dvd_gap (b - 2)
  have p4 := two_dvd_gap (b - 1)
  have e1 := value_succ a
  have e2 := value_succ (b - 1)
  rw [sub_add_cancel] at e2
  have near (hw : 0x40000000000000 < value b - value a) := hd.error_le (by omega) hdt
  constructor
  -- the sum passes the middle of the first gap
  · refine hm.lt_of_middle (by omega) ?_
    rcases half with ⟨hw, hh⟩ | ⟨hw, hh⟩
    · have := near hw
      omega
    · omega
  -- and falls short of the middle of the last one
  · refine hm.gt_of_middle (by omega) ?_
    rcases half with ⟨hw, hh⟩ | ⟨hw, hh⟩
    · have := near hw
      omega
    · omega

/-- Twice the rounded half of a width is close to the width. -/
private theorem twice_half_width (hab : a < b) (hd : Rounds (value b - value a) d) (hdt : d < top)
    (hn : 2 * n = value d) (hh : Rounds n h) :
    20 * (2 * value h - (value b - value a)) ≤ value b - value a + 40 ∧
      20 * (value b - value a - 2 * value h) ≤ value b - value a + 40 := by
  have hpos : value a < value b := value_lt_value.2 hab
  rcases rounds_half_width hab hd hdt hn hh with ⟨hw, hh⟩ | ⟨hw, hh⟩
  · have := hd.error_le (by omega) hdt
    omega
  · omega

/-- A rounded midpoint that lies strictly inside an interval leaves at most seven tenths of it on
either side, plus the smallest double. -/
theorem midpoint_contracts (ha : -top ≤ a) (hb : b ≤ top) (ham : a < m) (hmb : m < b)
    (hd : Rounds (value b - value a) d) (hdt : d < top) (hn : 2 * n = value d) (hh : Rounds n h)
    (hm : Rounds (value a + value h) m) :
    10 * (value m - value a) ≤ 7 * (value b - value a) + 20 ∧
      10 * (value b - value m) ≤ 7 * (value b - value a) + 20 := by
  obtain ⟨hover, hunder⟩ := twice_half_width (by omega) hd hdt hn hh
  -- the exact sum is no further away than half of the gaps next to the midpoint
  have hreach : value (m - 1) + value m ≤ 2 * (value a + value h) := by
    rcases hm.reaches.resolve_left (by omega) with h | h <;> omega
  have hbelow : 2 * (value a + value h) ≤ value m + value (m + 1) := by
    rcases hm.staysBelow.resolve_left (by omega) with h | h <;> omega
  have hprev := value_succ (m - 1)
  rw [sub_add_cancel] at hprev
  have hnext := value_succ m
  have hA : value a ≤ value (m - 1) := value_le_value.2 (by omega)
  have hB : value (m + 1) ≤ value b := value_le_value.2 (by omega)
  have hratio := gap_cases (m - 1)
  rw [sub_add_cancel] at hratio
  constructor
  · rcases le_or_gt (gap (m - 1)) (gap m) with hg | hg
    · omega
    -- before the greater gap there is none, or another one of at least the same length
    · rcases eq_or_ne (m - 1) a with rfl | hne
      · omega
      · have hpred := gap_le_gap_pred hg
        have hsucc := value_succ (m - 2)
        rw [show m - 2 + 1 = m - 1 by ring] at hsucc
        have : value a ≤ value (m - 2) := value_le_value.2 (by omega)
        omega
  · rcases le_or_gt (gap m) (gap (m - 1)) with hg | hg
    · omega
    -- and so it is after the greater gap
    · rcases eq_or_ne (m + 1) b with rfl | hne
      · omega
      · have hle := gap_le_gap_succ hg
        have hsucc := value_succ (m + 1)
        have : value (m + 1 + 1) ≤ value b := value_le_value.2 (by omega)
        omega

end TrajectoryEvents.Binary64
