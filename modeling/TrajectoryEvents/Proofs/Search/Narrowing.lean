import TrajectoryEvents.Proofs.Epoch.Duration
import TrajectoryEvents.Proofs.Search.Outline

/-!
# Narrowing a bracket

A bisection halves a bracket while its midpoint lies strictly inside it. What one halving preserves
holds of the bracket that is left in the end, and the epoch that is found is either the late end of
that bracket or a zero at its midpoint.

## Main definitions

* `Bracket.Inside`: a bracket that is left of another one.
* `Bracket.Settles`: how a bracket that is left in the end determines the epoch found.

## Main results

* `Bracket.IsTight.place_late`: the ends of a tight bracket stand next to each other.
* `Bracket.Inside.half`: halving a bracket that is not tight leaves a bracket inside it.
* `exists_settles`: an invariant of halving holds of the bracket that determines the epoch found.
* `narrow_between`: the epoch found lies after the early end and not after the late one.
-/

namespace TrajectoryEvents

/-! ### Halving -/

namespace Bracket

/-- A bracket of finite epochs that is left of another one. -/
structure Inside (outer b : Bracket) : Prop where
  precedes : b.early.Precedes b.late
  early : outer.early.place ≤ b.early.place
  late : b.late.place ≤ outer.late.place

/-- A bracket of finite epochs is left of itself. -/
theorem Inside.refl {b : Bracket} (h : b.early.Precedes b.late) : b.Inside b :=
  ⟨h, le_rfl, le_rfl⟩

/-- A bracket that is left of another one samples no other epochs. -/
theorem Inside.between {outer b : Bracket} (h : outer.Inside b)
    (hb : outer.early.Precedes outer.late) {t : Epoch} (h1 : b.early < t) (h2 : t ≤ b.late) :
    outer.early < t ∧ t ≤ outer.late := by
  obtain ⟨-, hn, hlt⟩ := Epoch.lt_iff.1 h1
  have hle := (Epoch.le_iff.1 h2).2.2
  rw [Epoch.lt_iff_place hb.left.isNaN hn, Epoch.le_iff_place hn hb.right.isNaN]
  exact ⟨h.early.trans_lt hlt, hle.trans h.late⟩

/-- The midpoint of a bracket that is not tight lies strictly inside it. -/
theorem midpoint_between {b : Bracket} (hb : b.early.Precedes b.late) (ht : ¬ b.IsTight) :
    b.early.Precedes b.midpoint ∧ b.midpoint.Precedes b.late := by
  have hlt := hb.place_lt
  have hn : b.midpoint.isNaN = false := Epoch.isNaN_midpoint hb.left hb.right hlt.le
  -- a bracket is tight if its midpoint does not lie strictly inside it
  obtain ⟨hearly, hlate⟩ := not_or.1 ht
  rw [Epoch.le_iff_place hn hb.left.isNaN] at hearly
  rw [Epoch.le_iff_place hb.right.isNaN hn] at hlate
  have hfin := hb.left.of_between hb.right hn (by omega) (by omega)
  exact ⟨.of_place_lt hb.left hfin (by omega), .of_place_lt hfin hb.right (by omega)⟩

/-- The ends of a tight bracket of finite width stand next to each other. -/
theorem IsTight.place_late {b : Bracket} (ht : b.IsTight) (hb : b.early.Precedes b.late)
    (hd : b.width.isFinite = true) : b.late.place = b.early.place + 1 := by
  have hlt := hb.place_lt
  by_contra hne
  obtain ⟨h1, h2⟩ := Epoch.midpoint_between hb.left hb.right hd (by omega)
  rcases ht with ht | ht
  · exact absurd (Epoch.le_iff.1 ht).2.2 h1.not_ge
  · exact absurd (Epoch.le_iff.1 ht).2.2 h2.not_ge

/-- Halving a bracket that is not tight leaves a bracket inside it. -/
theorem Inside.half {outer b : Bracket} (h : outer.Inside b) (ht : ¬ b.IsTight) (v : Float) :
    outer.Inside (b.half v) := by
  obtain ⟨h1, h2⟩ := midpoint_between h.precedes ht
  unfold Bracket.half
  split
  · exact ⟨h2, h.early.trans h1.place_lt.le, h.late⟩
  · exact ⟨h1, h.early, h2.place_lt.le.trans h.late⟩

/-- How the bracket that is left in the end determines the epoch found: it is narrow or tight and
the epoch its late end, or the value at its midpoint is a zero. -/
inductive Settles (g : Epoch → Except EventError Float) (threshold : Float) (b : Bracket) :
    Epoch → Prop
  | narrow (h : b.width ≤ threshold) : Settles g threshold b b.late
  | tight (h : b.IsTight) : Settles g threshold b b.late
  | zero {v : Float} (ht : ¬ b.IsTight) (hv : g b.midpoint = .ok v) (h0 : (v == 0.0) = true) :
    Settles g threshold b b.midpoint

end Bracket

/-! ### Bisections -/

variable {g : Epoch → Except EventError Float} {threshold : Float} {permitted : UInt64}

/-- What a halving preserves holds of the bracket that determines the epoch found. Only halvings at
the midpoints that the bisection looks at matter. -/
theorem exists_settles {Inv : Bracket → Prop} {n : ℕ} {b : Bracket}
    (hstep : ∀ b' v, b'.midpoint ∈ midpoints g threshold n b → Inv b' → ¬ b'.IsTight →
      g b'.midpoint = .ok v → ¬ (v == 0.0) = true → Inv (b'.half v))
    (hb : Inv b) {e : Epoch}
    (h : narrow g threshold permitted n b = .ok e) :
    ∃ b', Inv b' ∧ b'.Settles g threshold e := by
  -- the induction follows the halvings that are left, and `Inv` is carried from bracket to bracket
  induction n generalizing b with
  | zero =>
    obtain ⟨hw, rfl⟩ | ⟨-, _, ⟨⟩, -⟩ := narrow_cases h
    exact ⟨b, hb, .narrow hw⟩
  | succ n ih =>
    obtain ⟨hw, rfl⟩ | ⟨hw, _, ⟨⟩, ⟨ht, rfl⟩ | ⟨ht, v, hv, ⟨h0, rfl⟩ | ⟨h0, hlater⟩⟩⟩ :=
      narrow_cases h
    · exact ⟨b, hb, .narrow hw⟩
    · exact ⟨b, hb, .tight ht⟩
    · exact ⟨b, hb, .zero ht hv h0⟩
    · have hm : midpoints g threshold (n + 1) b =
          b.midpoint :: midpoints g threshold n (b.half v) := by
        simp only [midpoints, if_neg hw, if_neg ht, hv, if_neg h0]
      rw [hm] at hstep
      refine ih (fun b' v' hb' => hstep b' v' (List.mem_cons_of_mem _ hb')) ?_ hlater
      exact hstep b v List.mem_cons_self hb ht hv h0

/-- The epoch found lies after the early end of a bracket and not after the late one. -/
theorem narrow_between {n : ℕ} {b : Bracket} (hb : b.early.Precedes b.late) {e : Epoch}
    (h : narrow g threshold permitted n b = .ok e) : b.early < e ∧ e ≤ b.late := by
  obtain ⟨b', hin, hsettles⟩ :=
    exists_settles (fun _ v _ hin ht _ _ => hin.half ht v) (Bracket.Inside.refl hb) h
  obtain ⟨hp, hearly, hlate⟩ := hin
  -- the epoch found lies in the bracket that is left, which is inside the given one
  have hlt := hp.place_lt
  obtain ⟨hfin, h1, h2⟩ : e.IsFinite ∧ b'.early.place < e.place ∧ e.place ≤ b'.late.place := by
    cases hsettles with
    | narrow | tight => exact ⟨hp.right, hlt, le_rfl⟩
    | zero ht =>
      obtain ⟨h1, h2⟩ := Bracket.midpoint_between hp ht
      exact ⟨h1.right, h1.place_lt, h2.place_lt.le⟩
  rw [Epoch.lt_iff_place hb.left.isNaN hfin.isNaN, Epoch.le_iff_place hfin.isNaN hb.right.isNaN]
  omega

end TrajectoryEvents
