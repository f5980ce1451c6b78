import TrajectoryEvents.Epoch
import TrajectoryEvents.Proofs.Binary64.Arithmetic
import TrajectoryEvents.Proofs.Binary64.Midpoint

/-!
# Durations between epochs

The duration between two finite epochs is their distance, rounded. Rounding keeps the order, so that
a narrower interval never has the longer duration, and it leaves enough of a small interval for its
midpoint to be found.

## Main definitions

* `Epoch.IsFinite`: an epoch that is neither NaN nor infinite.
* `Epoch.Precedes`: two finite epochs, the first before the second.
* `Epoch.Adjacent`: two epochs without any epoch between them.

## Main results

* `Epoch.durationFrom_le_durationFrom`: a narrower interval has no longer duration.
* `Epoch.shiftedBy_le`, `Epoch.place_shiftedBy_lt_zero`: a shift by less than the duration to a
  later epoch does not pass that epoch.
* `Epoch.midpoint_between`, `Epoch.midpoint_contracts`: the midpoint of an interval lies strictly
  inside it, unless no epoch does, and then either side is shorter by a constant factor.
-/

namespace TrajectoryEvents.Epoch

open Binary64

/-! ### Finite epochs -/

/-- An epoch that is neither NaN nor infinite. -/
def IsFinite (a : Epoch) : Prop := a.seconds.isFinite = true

instance (a : Epoch) : Decidable a.IsFinite := inferInstanceAs (Decidable (_ = _))

/-- Two epochs, the first before the second, without any epoch between them. -/
def Adjacent (a b : Epoch) : Prop := a < b ∧ ∀ t : Epoch, ¬ (a < t ∧ t < b)

variable {a b c t : Epoch}

theorem isFinite_iff_place :
    a.IsFinite ↔ a.isNaN = false ∧ -top < a.place ∧ a.place < top :=
  isFinite_iff

theorem IsFinite.isNaN (ha : a.IsFinite) : a.isNaN = false := (isFinite_iff_place.1 ha).1

theorem lt_iff_place (ha : a.isNaN = false) (hb : b.isNaN = false) : a < b ↔ a.place < b.place := by
  rw [lt_iff]
  exact ⟨fun h => h.2.2, fun h => ⟨ha, hb, h⟩⟩

theorem le_iff_place (ha : a.isNaN = false) (hb : b.isNaN = false) : a ≤ b ↔ a.place ≤ b.place := by
  rw [le_iff]
  exact ⟨fun h => h.2.2, fun h => ⟨ha, hb, h⟩⟩

theorem beq_iff_place : (a == b) = true ↔ a.isNaN = false ∧ b.isNaN = false ∧ a.place = b.place :=
  beq_iff

/-- The places between two finite epochs hold finite epochs only. -/
theorem IsFinite.of_between (ha : a.IsFinite) (hb : b.IsFinite) (ht : t.isNaN = false)
    (h1 : a.place ≤ t.place) (h2 : t.place ≤ b.place) : t.IsFinite := by
  have := (isFinite_iff_place.1 ha).2
  have := (isFinite_iff_place.1 hb).2
  exact isFinite_iff_place.2 ⟨ht, by omega, by omega⟩

theorem lt_trans (hab : a < b) (hbc : b < c) : a < c := by
  rw [lt_iff] at hab hbc ⊢
  exact ⟨hab.1, hbc.2.1, hab.2.2.trans hbc.2.2⟩

theorem le_of_lt (hab : a < b) : a ≤ b := by
  rw [lt_iff] at hab
  exact le_iff.2 ⟨hab.1, hab.2.1, hab.2.2.le⟩

theorem lt_of_le_of_lt (hab : a ≤ b) (hbc : b < c) : a < c := by
  rw [le_iff] at hab
  rw [lt_iff] at hbc ⊢
  exact ⟨hab.1, hbc.2.1, hab.2.2.trans_lt hbc.2.2⟩

theorem lt_of_lt_of_le (hab : a < b) (hbc : b ≤ c) : a < c := by
  rw [le_iff] at hbc
  rw [lt_iff] at hab ⊢
  exact ⟨hab.1, hbc.2.1, hab.2.2.trans_le hbc.2.2⟩

theorem le_trans (hab : a ≤ b) (hbc : b ≤ c) : a ≤ c := by
  rw [le_iff] at hab hbc ⊢
  exact ⟨hab.1, hbc.2.1, hab.2.2.trans hbc.2.2⟩

/-- Two finite epochs, the first before the second. -/
structure Precedes (a b : Epoch) : Prop where
  left : a.IsFinite
  right : b.IsFinite
  lt : a < b

theorem Precedes.place_lt (h : a.Precedes b) : a.place < b.place :=
  (lt_iff_place h.left.isNaN h.right.isNaN).1 h.lt

theorem Precedes.le (h : a.Precedes b) : a ≤ b := le_of_lt h.lt

theorem Precedes.not_le (h : a.Precedes b) : ¬ b ≤ a := by
  rw [le_iff_place h.right.isNaN h.left.isNaN]
  exact h.place_lt.not_ge

theorem Precedes.of_place_lt (ha : a.IsFinite) (hb : b.IsFinite) (h : a.place < b.place) :
    a.Precedes b :=
  ⟨ha, hb, (lt_iff_place ha.isNaN hb.isNaN).2 h⟩

instance : IsTrans Epoch Precedes := ⟨fun _ _ _ h h' => ⟨h.left, h'.right, lt_trans h.lt h'.lt⟩⟩

/-- Two epochs stand next to each other exactly if their places do. -/
theorem adjacent_iff (ha : a.isNaN = false) (hb : b.isNaN = false) :
    Adjacent a b ↔ b.place = a.place + 1 := by
  constructor
  · rintro ⟨hlt, hnone⟩
    -- the successor of `a` is not between them, so it is `b`
    obtain ⟨hn, hp⟩ := place_nextRepresentable hlt
    have hab := (lt_iff_place ha hb).1 hlt
    have h := hnone a.nextRepresentable
    rw [lt_iff_place ha hn, lt_iff_place hn hb] at h
    omega
  · intro h
    refine ⟨(lt_iff_place ha hb).2 (by omega), fun t ht => ?_⟩
    rw [lt_iff, lt_iff] at ht
    omega

/-! ### Durations -/

/-- The distance of an epoch from the reference instant, counted as `Binary64.value` is. -/
def value (a : Epoch) : ℤ := Binary64.value a.place

theorem value_lt_value : a.value < b.value ↔ a.place < b.place := Binary64.value_lt_value

theorem value_le_value : a.value ≤ b.value ↔ a.place ≤ b.place := Binary64.value_le_value

/-- The duration between two finite epochs is their distance, rounded. -/
theorem rounds_durationFrom (ha : a.IsFinite) (hb : b.IsFinite) :
    (b.durationFrom a).isNaN = false ∧
      Rounds (b.value - a.value) (Binary64.place (b.durationFrom a)) :=
  rounds_sub hb ha

/-- An epoch shifted by a finite duration is the exact sum, rounded. -/
theorem rounds_shiftedBy {dt : Float} (ha : a.IsFinite) (hd : dt.isFinite = true) :
    (a.shiftedBy dt).isNaN = false ∧
      Rounds (a.value + Binary64.value (Binary64.place dt)) (a.shiftedBy dt).place :=
  rounds_add ha hd

/-- The duration from an epoch to a later one is not negative. -/
private theorem zero_le_place_durationFrom (ha : a.IsFinite) (hb : b.IsFinite)
    (hab : a.place ≤ b.place) : 0 ≤ Binary64.place (b.durationFrom a) := by
  have hle := value_le_value.2 hab
  refine (rounds_durationFrom ha hb).2.le_of_value_le (by decide) (by decide) ?_
  rw [value_zero]
  omega

/-- A narrower interval has no longer duration. -/
theorem durationFrom_le_durationFrom {a' b' : Epoch} (ha : a.IsFinite) (hb : b.IsFinite)
    (ha' : a'.IsFinite) (hb' : b'.IsFinite) (h1 : a.place ≤ a'.place) (h2 : b'.place ≤ b.place) :
    b'.durationFrom a' ≤ b.durationFrom a := by
  obtain ⟨hn, hr⟩ := rounds_durationFrom ha hb
  obtain ⟨hn', hr'⟩ := rounds_durationFrom ha' hb'
  refine Binary64.le_iff.2 ⟨hn', hn, hr'.mono hr ?_⟩
  have := value_le_value.2 h1
  have := value_le_value.2 h2
  omega

/-- The duration of an interval inside one of finite duration is finite. -/
theorem isFinite_durationFrom {a' b' : Epoch} (ha : a.IsFinite) (hb : b.IsFinite)
    (ha' : a'.IsFinite) (hb' : b'.IsFinite) (h1 : a.place ≤ a'.place) (h2 : b'.place ≤ b.place)
    (h3 : a'.place ≤ b'.place) (hd : (b.durationFrom a).isFinite = true) :
    (b'.durationFrom a').isFinite = true := by
  have hn := (rounds_durationFrom ha' hb').1
  have hle := (Binary64.le_iff.1 (durationFrom_le_durationFrom ha hb ha' hb' h1 h2)).2.2
  have hlt := (isFinite_iff.1 hd).2.2
  have h0 := zero_le_place_durationFrom ha' hb' h3
  have ht : 0 < top := by decide
  exact isFinite_iff.2 ⟨hn, by omega, by omega⟩

/-- A duration is less than the one up to a later epoch only if the exact durations are. -/
private theorem value_shift_lt {dt : Float} (ha : a.IsFinite) (hb : b.IsFinite)
    (hd : dt.isFinite = true) (h : dt < b.durationFrom a) :
    a.value + Binary64.value (Binary64.place dt) < b.value := by
  obtain ⟨hn, hr⟩ := rounds_durationFrom ha hb
  have hlt := (Binary64.lt_iff.1 h).2.2
  obtain ⟨-, h1, h2⟩ := isFinite_iff.1 hd
  by_contra hle
  -- otherwise the duration rounds at most to `dt`
  have := hr.le_of_le_value (q := Binary64.place dt) (by omega) (by omega) (by omega)
  omega

/-- A shift by less than the duration to a later epoch does not pass that epoch. -/
theorem shiftedBy_le {dt : Float} (ha : a.IsFinite) (hb : b.IsFinite) (hd : dt.isFinite = true)
    (h : dt < b.durationFrom a) : a.shiftedBy dt ≤ b := by
  obtain ⟨hn, hr⟩ := rounds_shiftedBy ha hd
  obtain ⟨hbn, h1, h2⟩ := isFinite_iff_place.1 hb
  have hlt := value_shift_lt ha hb hd h
  exact (le_iff_place hn hbn).2 (hr.le_of_le_value (by omega) (by omega) hlt.le)

/-- A shift that falls short of the reference instant does not round to it. -/
theorem place_shiftedBy_lt_zero {dt : Float} (ha : a.IsFinite) (hb : b.IsFinite)
    (hd : dt.isFinite = true) (h : dt < b.durationFrom a) (h0 : b.place = 0) :
    (a.shiftedBy dt).place < 0 := by
  obtain ⟨hn, hr⟩ := rounds_shiftedBy ha hd
  have hlt := value_shift_lt ha hb hd h
  have hb0 : b.value = 0 := by
    unfold value
    rw [h0, value_zero]
  -- the exact sum is even and negative, so it is at most the value next to zero
  have e1 : 2 ∣ a.value := even_value _
  have e2 := even_value (Binary64.place dt)
  have h1 : Binary64.value (-1) = -2 := rfl
  have := hr.le_of_le_value (q := -1) (by decide) (by decide) (by omega)
  omega

/-! ### Midpoints -/

/-- If the width of a finite interval overflows, then so does its midpoint. -/
theorem midpoint_eq_infinity (ha : a.IsFinite) (hb : b.IsFinite) (hab : a.place ≤ b.place)
    (hd : ¬ (b.durationFrom a).isFinite = true) :
    a.shiftedBy (0.5 * b.durationFrom a) = ⟨store (.infinity .positive)⟩ := by
  have hn := (rounds_durationFrom ha hb).1
  have h0 := zero_le_place_durationFrom ha hb hab
  have hinf : b.durationFrom a = store (.infinity .positive) := by
    refine eq_infinity hn ?_
    have ht : 0 < top := by decide
    by_contra hlt
    exact hd (isFinite_iff.2 ⟨hn, by omega, by omega⟩)
  rw [shiftedBy, hinf, half_infinite, add_infinite ha]

/-- The midpoint of a finite interval is a number, even if its width overflows. -/
theorem isNaN_midpoint (ha : a.IsFinite) (hb : b.IsFinite) (hab : a.place ≤ b.place) :
    (a.shiftedBy (0.5 * b.durationFrom a)).isNaN = false := by
  by_cases hd : (b.durationFrom a).isFinite = true
  · exact (rounds_shiftedBy ha (isFinite_half hd (zero_le_place_durationFrom ha hb hab))).1
  · rw [midpoint_eq_infinity ha hb hab hd]
    rfl

/-- The midpoint of an interval of finite duration lies strictly inside it, if any epoch does. -/
theorem midpoint_between (ha : a.IsFinite) (hb : b.IsFinite)
    (hd : (b.durationFrom a).isFinite = true) (hab : a.place + 1 < b.place) :
    a.place < (a.shiftedBy (0.5 * b.durationFrom a)).place ∧
      (a.shiftedBy (0.5 * b.durationFrom a)).place < b.place := by
  obtain ⟨-, ha1, -⟩ := isFinite_iff_place.1 ha
  obtain ⟨-, -, hb2⟩ := isFinite_iff_place.1 hb
  have h0 := zero_le_place_durationFrom ha hb (by omega)
  obtain ⟨n, hn⟩ := even_value (Binary64.place (b.durationFrom a))
  exact Binary64.midpoint_between (by omega) (by omega) hab (rounds_durationFrom ha hb).2
    (isFinite_iff.1 hd).2.2 hn.symm (rounds_half hd hn.symm).2
    (rounds_shiftedBy ha (isFinite_half hd h0)).2

/-- A midpoint strictly inside an interval leaves at most seven tenths of it on either side, plus
the smallest double. -/
theorem midpoint_contracts (ha : a.IsFinite) (hb : b.IsFinite)
    (hd : (b.durationFrom a).isFinite = true)
    (ham : a.place < (a.shiftedBy (0.5 * b.durationFrom a)).place)
    (hmb : (a.shiftedBy (0.5 * b.durationFrom a)).place < b.place) :
    10 * ((a.shiftedBy (0.5 * b.durationFrom a)).value - a.value) ≤
        7 * (b.value - a.value) + 20 ∧
      10 * (b.value - (a.shiftedBy (0.5 * b.durationFrom a)).value) ≤
        7 * (b.value - a.value) + 20 := by
  obtain ⟨-, ha1, -⟩ := isFinite_iff_place.1 ha
  obtain ⟨-, -, hb2⟩ := isFinite_iff_place.1 hb
  have h0 := zero_le_place_durationFrom ha hb (by omega)
  obtain ⟨n, hn⟩ := even_value (Binary64.place (b.durationFrom a))
  exact Binary64.midpoint_contracts (by omega) (by omega) ham hmb (rounds_durationFrom ha hb).2
    (isFinite_iff.1 hd).2.2 hn.symm (rounds_half hd hn.symm).2
    (rounds_shiftedBy ha (isFinite_half hd h0)).2

end TrajectoryEvents.Epoch
