import TrajectoryEvents.Binary64.Fields

/-!
# The line of doubles

Every double has a place on a line of integers: both zeros stand at `0`, the positive doubles
follow one by one up to positive infinity, the negative ones precede likewise, and NaN is put
beyond positive infinity. Comparison of doubles is comparison of places:

* `lt_iff`, `le_iff`, `beq_iff`: the ordered comparisons hold exactly between numbers, and
  exactly as their places compare;
* `place_next`: the successor of a number below positive infinity stands one place further.
-/

namespace TrajectoryEvents.Binary64

open Float.Model Float.Model.UnpackedFloat

/-- Positive infinity. -/
def infinity : Float := Float.ofBits 0x7ff0000000000000

/-- The place of a double on the line of doubles. -/
def place (x : Float) : Int :=
  if x.toBits.toNat < 0x8000000000000000 then x.toBits.toNat
  else 0x8000000000000000 - (x.toBits.toNat : Int)

/-- The least double greater than a given one. NaN and positive infinity have none and are
returned unchanged. -/
def next (x : Float) : Float :=
  if x.isNaN || x == infinity then x
  else if x == 0.0 then Float.ofBits 1
  else if 0.0 < x then Float.ofBits (x.toBits + 1)
  else Float.ofBits (x.toBits - 1)

/-! ### Comparison by places -/

private theorem compare_significands {m₁ m₂ : Nat} {e₁ e₂ : Int} (h₁ : m₁ < 0x20000000000000)
    (h₂ : m₂ < 0x20000000000000) (l₁ : -1074 < e₁ → 0x10000000000000 ≤ m₁)
    (l₂ : -1074 < e₂ → 0x10000000000000 ≤ m₂) (f₁ : -1074 ≤ e₁) (f₂ : -1074 ≤ e₂) :
    (compare e₁ e₂).then (compare m₁ m₂) =
      compare ((e₁ + 1074) * 0x10000000000000 + m₁ : Int)
        ((e₂ + 1074) * 0x10000000000000 + m₂) := by
  have hc : compare m₁ m₂ = compare (m₁ : Int) m₂ := by
    rw [Nat.compare_eq_ite_lt, Int.compare_eq_ite_lt]
    simp
  rw [hc]
  -- a greater exponent comes with a leading bit, which outweighs every smaller significand
  rcases Int.lt_trichotomy e₁ e₂ with h | h | h
  · rw [Int.compare_eq_lt.2 h, Ordering.lt_then, eq_comm, Int.compare_eq_lt]
    have := l₂ (by omega)
    omega
  · subst h
    rw [Int.compare_eq_eq.2 rfl, Ordering.eq_then, Int.compare_eq_ite_lt, Int.compare_eq_ite_lt]
    simp
  · rw [Int.compare_eq_gt.2 h, Ordering.gt_then, eq_comm, Int.compare_eq_gt]
    have := l₁ (by omega)
    omega

private theorem rank_negative {m : Nat} {e : Int} {hm : 0 < m}
    (h : Reduced (.finite .negative m e hm)) :
    -0x7ff0000000000000 < rank (.finite .negative m e hm) ∧
      rank (.finite .negative m e hm) < 0 := by
  obtain ⟨a, b, c, d⟩ := h
  change -_ < -((e + 1074) * 0x10000000000000 + (m : Int)) ∧
    -((e + 1074) * 0x10000000000000 + (m : Int)) < 0
  omega

private theorem rank_positive {m : Nat} {e : Int} {hm : 0 < m}
    (h : Reduced (.finite .positive m e hm)) :
    0 < rank (.finite .positive m e hm) ∧ rank (.finite .positive m e hm) < 0x7ff0000000000000 := by
  obtain ⟨a, b, c, d⟩ := h
  change 0 < (e + 1074) * 0x10000000000000 + (m : Int) ∧
    (e + 1074) * 0x10000000000000 + (m : Int) < _
  omega

private theorem compare_finite {s t : Sign} {m n : Nat} {d e : Int} {hm : 0 < m} {hn : 0 < n}
    (hu : Reduced (.finite s m d hm)) (hv : Reduced (.finite t n e hn)) :
    (UnpackedFloat.finite s m d hm).compare (.finite t n e hn) =
      some (compare (rank (.finite s m d hm)) (rank (.finite t n e hn))) := by
  have h := compare_significands hu.2.2.1 hv.2.2.1 hu.2.2.2 hv.2.2.2 hu.1 hv.1
  cases s <;> cases t
  · change some (Ordering.swap _) = some (compare (-_) (-_))
    rw [h, Int.compare_swap, Int.compare_eq_ite_lt, Int.compare_eq_ite_lt]
    simp only [Int.neg_lt_neg_iff]
  · have := (rank_negative hu).2
    have := (rank_positive hv).1
    exact congrArg some (Int.compare_eq_lt.2 (by omega)).symm
  · have := (rank_positive hu).1
    have := (rank_negative hv).2
    exact congrArg some (Int.compare_eq_gt.2 (by omega)).symm
  · exact congrArg some h

/-- Values in reduced form compare as their ranks. -/
theorem compare_eq_compare_rank {u v : UnpackedFloat} (hu : Reduced u) (hv : Reduced v)
    (nu : u.isNaN = false) (nv : v.isNaN = false) :
    u.compare v = some (compare (rank u) (rank v)) := by
  have below {a b : Int} (h : a < b) : some Ordering.lt = some (compare a b) :=
    congrArg some (Int.compare_eq_lt.2 h).symm
  have above {a b : Int} (h : b < a) : some Ordering.gt = some (compare a b) :=
    congrArg some (Int.compare_eq_gt.2 h).symm
  cases u with
  | notANumber => cases nu
  | infinity s =>
    cases v with
    | notANumber => cases nv
    | infinity t => cases s <;> cases t <;> rfl
    | zero t => cases s <;> rfl
    | finite t m e hm =>
      cases s <;> cases t
      · exact below (rank_negative hv).1
      · exact below (Int.lt_trans (by decide) (rank_positive hv).1)
      · exact above (Int.lt_trans (rank_negative hv).2 (by decide))
      · exact above (rank_positive hv).2
  | zero s =>
    cases v with
    | notANumber => cases nv
    | infinity t => cases t <;> rfl
    | zero t => rfl
    | finite t m e hm =>
      cases t
      · exact above (rank_negative hv).2
      · exact below (rank_positive hv).1
  | finite s m e hm =>
    cases v with
    | notANumber => cases nv
    | infinity t =>
      cases s <;> cases t
      · exact above (rank_negative hu).1
      · exact below (Int.lt_trans (rank_negative hu).2 (by decide))
      · exact above (Int.lt_trans (by decide) (rank_positive hu).1)
      · exact below (rank_positive hu).2
    | zero t =>
      cases s
      · exact below (rank_negative hu).2
      · exact above (rank_positive hu).1
    | finite t n d hn => exact compare_finite hu hv

private theorem compare_toModel {a b : Float} (ha : a.isNaN = false) (hb : b.isNaN = false) :
    a.toModel.compare b.toModel = some (compare (place a) (place b)) := by
  have h := compare_eq_compare_rank (reduced_unpack a.toModel.toBits.toBitVec)
    (reduced_unpack b.toModel.toBits.toBitVec) ha hb
  rw [rank_unpack ha, rank_unpack hb] at h
  exact h

private theorem compare_toModel_of_isNaN {a b : Float} (h : a.isNaN = true ∨ b.isNaN = true) :
    a.toModel.compare b.toModel = none := by
  have nan {u : UnpackedFloat} (hu : u.isNaN = true) : u = .notANumber := by
    cases u <;> first | rfl | cases hu
  unfold Float.Model.compare
  rcases h with h | h
  · rw [nan h]
    rfl
  · rw [nan h]
    cases a.toModel.unpack <;> rfl

/-- One double is less than another exactly when both are numbers and its place comes first. -/
theorem lt_iff {a b : Float} :
    a < b ↔ a.isNaN = false ∧ b.isNaN = false ∧ place a < place b := by
  have h : a < b ↔ a.toModel.compare b.toModel = some .lt := by
    change decide ((a.toModel.compare b.toModel == some .lt) = true) = true ↔ _
    rw [decide_eq_true_iff, beq_iff_eq]
  rw [h]
  cases ha : a.isNaN
  · cases hb : b.isNaN
    · simp [compare_toModel ha hb, Int.compare_eq_lt]
    · simp [compare_toModel_of_isNaN (.inr hb)]
  · simp [compare_toModel_of_isNaN (.inl ha)]

/-- One double is at most another exactly when both are numbers and its place comes no later. -/
theorem le_iff {a b : Float} :
    a ≤ b ↔ a.isNaN = false ∧ b.isNaN = false ∧ place a ≤ place b := by
  have h : a ≤ b ↔ (a.toModel.compare b.toModel).any (·.isLE) = true := by
    change decide ((a.toModel.compare b.toModel).any (·.isLE) = true) = true ↔ _
    rw [decide_eq_true_iff]
  rw [h]
  cases ha : a.isNaN
  · cases hb : b.isNaN
    · simp [compare_toModel ha hb, Int.isLE_compare]
    · simp [compare_toModel_of_isNaN (.inr hb)]
  · simp [compare_toModel_of_isNaN (.inl ha)]

/-- Two doubles are numerically equal exactly when both are numbers and share a place. -/
theorem beq_iff {a b : Float} :
    (a == b) = true ↔ a.isNaN = false ∧ b.isNaN = false ∧ place a = place b := by
  have h : (a == b) = true ↔ a.toModel.compare b.toModel = some .eq := by
    change (a.toModel.compare b.toModel == some .eq) = true ↔ _
    rw [beq_iff_eq]
  rw [h]
  cases ha : a.isNaN
  · cases hb : b.isNaN
    · simp [compare_toModel ha hb]
    · simp [compare_toModel_of_isNaN (.inr hb)]
  · simp [compare_toModel_of_isNaN (.inl ha)]

/-! ### Extent of the line -/

/-- The place of NaN lies beyond that of positive infinity. -/
theorem place_of_isNaN {x : Float} (h : x.isNaN = true) : place x = 0x7ff8000000000000 := by
  rw [place, toBits_of_isNaN h]
  rfl

/-- Numbers stand between the two infinities. -/
theorem place_bounds {x : Float} (h : x.isNaN = false) :
    -0x7ff0000000000000 ≤ place x ∧ place x ≤ 0x7ff0000000000000 := by
  have hx : x.toBits.toNat < 0x10000000000000000 := x.toBits.toNat_lt
  rw [isNaN_eq, decide_eq_false_iff_not] at h
  unfold place
  split <;> omega

theorem place_infinity : place infinity = 0x7ff0000000000000 := by
  rw [place, infinity, toBits_ofBits (by decide)]
  rfl

theorem isNaN_infinity : infinity.isNaN = false := by
  rw [isNaN_eq, infinity, toBits_ofBits (by decide)]
  rfl

/-- The place of a double that is given by the bits of a number. -/
theorem place_ofBits {b : UInt64} (h : b.toNat % 0x8000000000000000 ≤ 0x7ff0000000000000) :
    place (Float.ofBits b) =
      if b.toNat < 0x8000000000000000 then (b.toNat : Int) else 0x8000000000000000 - b.toNat := by
  rw [place, toBits_ofBits h]

/-- Bits whose magnitude does not exceed that of an infinity encode a number. -/
theorem isNaN_ofBits {b : UInt64} (h : b.toNat % 0x8000000000000000 ≤ 0x7ff0000000000000) :
    (Float.ofBits b).isNaN = false := by
  rw [isNaN_eq, toBits_ofBits h]
  exact decide_eq_false (by omega)

/-! ### Successors -/

theorem next_of_isNaN {x : Float} (h : x.isNaN = true) : next x = x := by
  rw [next, h, Bool.true_or, if_pos rfl]

/-- The successor of a number below positive infinity is a number one place further. -/
theorem place_next {x : Float} (hn : x.isNaN = false) (hx : place x < 0x7ff0000000000000) :
    (next x).isNaN = false ∧ place (next x) = place x + 1 := by
  have hb : x.toBits.toNat < 0x10000000000000000 := x.toBits.toNat_lt
  have hm := hn
  rw [isNaN_eq, decide_eq_false_iff_not] at hm
  have hinf : (x == infinity) = false := by
    rw [Bool.eq_false_iff, ne_eq, beq_iff, place_infinity]
    omega
  have hz : place 0.0 = 0 := by decide
  have hzn : (0.0 : Float).isNaN = false := by decide
  unfold next
  rw [hn, hinf]
  simp only [Bool.or_self, Bool.false_eq_true, if_false]
  split
  next h0 =>
    rw [(beq_iff.1 h0).2.2, hz]
    exact ⟨isNaN_ofBits (by decide), place_ofBits (by decide)⟩
  next h0 =>
    have hne : place x ≠ 0 := fun h => h0 (beq_iff.2 ⟨hn, hzn, h.trans hz.symm⟩)
    split
    -- above zero the bits count up
    next hpos =>
      replace hpos := (lt_iff.1 hpos).2.2
      rw [hz] at hpos
      have hlow : x.toBits.toNat < 0x8000000000000000 := by
        unfold place at hpos
        split at hpos <;> omega
      have hsucc : (x.toBits + 1).toNat = x.toBits.toNat + 1 := by
        rw [UInt64.toNat_add]
        exact Nat.mod_eq_of_lt (Nat.lt_of_lt_of_le (Nat.add_lt_add_right hlow 1) (by decide))
      have hplace : place x = x.toBits.toNat := if_pos hlow
      have hmag : (x.toBits + 1).toNat % 0x8000000000000000 ≤ 0x7ff0000000000000 := by omega
      refine ⟨isNaN_ofBits hmag, ?_⟩
      rw [place_ofBits hmag]
      omega
    -- below zero they count down towards the sign bit alone, which is negative zero
    next hpos =>
      replace hpos : place x < 0 := by
        have : ¬ 0 < place x := fun h => hpos (lt_iff.2 ⟨hzn, hn, by rwa [hz]⟩)
        omega
      have hhigh : ¬ x.toBits.toNat < 0x8000000000000000 := by
        unfold place at hpos
        split at hpos <;> omega
      have hplace : place x = 0x8000000000000000 - x.toBits.toNat := if_neg hhigh
      have hpred : (x.toBits - 1).toNat = x.toBits.toNat - 1 := by
        rw [UInt64.toNat_sub_of_le]
        · rfl
        · rw [UInt64.le_iff_toNat_le]
          exact Nat.le_trans (by decide) (Nat.not_lt.1 hhigh)
      have hmag : (x.toBits - 1).toNat % 0x8000000000000000 ≤ 0x7ff0000000000000 := by omega
      refine ⟨isNaN_ofBits hmag, ?_⟩
      rw [place_ofBits hmag]
      omega

end TrajectoryEvents.Binary64
