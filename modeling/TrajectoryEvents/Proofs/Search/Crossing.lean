import TrajectoryEvents.Proofs.Binary64.Arithmetic
import TrajectoryEvents.Search.Scan

/-!
# Crossing zero

A search asks three things of values: whether one crosses zero between two samples, on which side of
zero it is, and whether it is zero. All three depend on the place of a value on the line of doubles
only, and none of them sees the sign of a zero.

## Main definitions

* `HasSign`: a value on a given side of zero.

## Main results

* `crosses_iff`: crossing zero, in terms of places.
* `HasSign.crosses`, `HasSign.not_crosses`, `not_crosses_of_zero`: when a value crosses zero.
-/

namespace TrajectoryEvents

/-! ### Crossings -/

/-- A value crosses zero if it leaves one side and does not stay on it. -/
theorem crosses_iff {v w : Float} :
    Crosses v w ↔ v.isNaN = false ∧ w.isNaN = false ∧
      (Binary64.place v < 0 ∧ 0 ≤ Binary64.place w ∨
        0 < Binary64.place v ∧ Binary64.place w ≤ 0) := by
  rw [Crosses, Binary64.lt_zero_iff, Binary64.zero_le_iff, Binary64.zero_lt_iff,
    Binary64.le_zero_iff]
  grind

/-- A value that crosses zero goes up exactly if it comes from below. -/
theorem Crosses.lt_iff {v w : Float} (h : Crosses v w) : v < w ↔ v < 0.0 := by
  obtain ⟨hv, hw, h⟩ := crosses_iff.1 h
  rw [Binary64.lt_iff, Binary64.lt_zero_iff]
  simp only [hv, hw, true_and]
  omega

/-- Leaving zero is not a crossing. -/
theorem not_crosses_of_zero {v w : Float} (h : (v == 0.0) = true) : ¬ Crosses v w := by
  rw [Binary64.beq_zero_iff] at h
  rw [crosses_iff]
  omega

/-! ### Signs -/

/-- A value on the given side of zero. -/
def HasSign (positive : Bool) (v : Float) : Prop :=
  if positive then 0.0 < v else v < 0.0

instance (positive : Bool) (v : Float) : Decidable (HasSign positive v) :=
  inferInstanceAs (Decidable (ite _ _ _))

theorem hasSign_true {v : Float} : HasSign true v ↔ v.isNaN = false ∧ 0 < Binary64.place v :=
  Binary64.zero_lt_iff

theorem hasSign_false {v : Float} : HasSign false v ↔ v.isNaN = false ∧ Binary64.place v < 0 :=
  Binary64.lt_zero_iff

namespace HasSign

variable {s : Bool} {v w : Float}

/-- A value with a sign is not zero. -/
theorem not_zero (h : HasSign s v) : ¬ (v == 0.0) = true := by
  rw [Binary64.beq_zero_iff]
  cases s
  · exact fun h0 => (hasSign_false.1 h).2.ne h0.2
  · exact fun h0 => (hasSign_true.1 h).2.ne' h0.2

/-- The sign of a value is whether it is positive. -/
theorem decide_pos (h : HasSign s v) : decide (0.0 < v) = s := by
  cases s
  · refine decide_eq_false fun hlt => ?_
    exact (hasSign_false.1 h).2.not_gt (Binary64.zero_lt_iff.1 hlt).2
  · exact decide_eq_true h

/-- A value goes up from the negative side only. -/
theorem decide_neg (h : HasSign s v) : decide (v < 0.0) = !s := by
  cases s
  · exact decide_eq_true h
  · refine decide_eq_false fun hlt => ?_
    exact (hasSign_true.1 h).2.not_gt (Binary64.lt_zero_iff.1 hlt).2

/-- A value that keeps its sign does not cross zero. -/
theorem not_crosses (hv : HasSign s v) (hw : HasSign s w) : ¬ Crosses v w := by
  rw [crosses_iff]
  cases s
  · have := (hasSign_false.1 hv).2
    have := (hasSign_false.1 hw).2
    omega
  · have := (hasSign_true.1 hv).2
    have := (hasSign_true.1 hw).2
    omega

/-- A value that switches its sign or becomes zero crosses zero. -/
theorem crosses (hv : HasSign (!s) v) (hw : HasSign s w ∨ (w == 0.0) = true) : Crosses v w := by
  rw [Binary64.beq_zero_iff] at hw
  rw [crosses_iff]
  cases s
  · rw [Bool.not_false, hasSign_true] at hv
    rw [hasSign_false] at hw
    exact ⟨hv.1, hw.elim And.left And.left, .inr ⟨hv.2, hw.elim (·.2.le) (·.2.le)⟩⟩
  · rw [Bool.not_true, hasSign_false] at hv
    rw [hasSign_true] at hw
    exact ⟨hv.1, hw.elim And.left And.left, .inl ⟨hv.2, hw.elim (·.2.le) (·.2.ge)⟩⟩

end HasSign

end TrajectoryEvents
