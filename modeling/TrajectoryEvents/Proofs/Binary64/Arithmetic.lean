import TrajectoryEvents.Proofs.Binary64.Significand

/-!
# Arithmetic on the line of doubles

Sums, differences and halves of finite doubles are the exact results, rounded to the nearest double.
Together with the order of places, and with what becomes of infinities and NaN, this is all that the
proofs about epochs use of arithmetic.

## Main results

* `isFinite_iff`: the finite doubles stand strictly between the two infinities.
* `rounds_add`, `rounds_sub`, `rounds_half`: the results of arithmetic, as places.
* `add_infinite`, `infinite_sub`, `neg_infinite_add`: an infinite operand decides.
* `isNaN_add`, `isNaN_sub`, `isNaN_half`: a NaN among the operands gives NaN.
* `place_neg`: negation mirrors the line at zero.
* `zero_lt_iff`, `lt_zero_iff`, `beq_zero_iff`: the sign of a double is the sign of its place.
* `eq_of_place_eq`: apart from the two zeros, no two doubles share a place.
-/

namespace TrajectoryEvents.Binary64

open Float.Model Float.Model.UnpackedFloat

/-! ### Unpacked values -/

/-- The exact value of a finite unpacked value, counted as `value` is. -/
def exactValue : UnpackedFloat → ℤ
  | .finite s m e _ => s.apply (m * 2 ^ (e + 1075).toNat)
  | _ => 0

private theorem apply_mul (s : Sign) (a b : ℤ) : s.apply (a * b) = s.apply a * b := by
  cases s
  · exact neg_mul_eq_neg_mul a b
  · rfl

private theorem neg_apply (s : Sign) (a : ℤ) : (-s).apply a = -s.apply a := by
  cases s
  · exact (neg_neg a).symm
  · rfl

/-- The value at the rank of a finite value is its exact value. -/
theorem value_rank {u : UnpackedFloat} (hu : Reduced u) (hf : u.isFinite = true) :
    value (rank u) = exactValue u := by
  cases u with
  | notANumber => cases hf
  | infinity s => cases hf
  | zero s => exact value_zero
  | finite s m e hm =>
    obtain ⟨h1, h2, h3, h4⟩ := hu
    obtain ⟨k, hk⟩ := Int.eq_ofNat_of_zero_le (by omega : 0 ≤ e + 1074)
    have hv : value ((e + 1074) * 0x10000000000000 + m) = m * 2 ^ (e + 1075).toNat := by
      rw [hk, show (e + 1075).toNat = k + 1 by omega]
      exact value_of_steps (by omega) (by omega)
    cases s
    · exact (value_neg _).trans (congrArg _ hv)
    · exact hv

private theorem isNaN_of_isFinite {u : UnpackedFloat} (h : u.isFinite = true) :
    u.isNaN = false := by
  cases u <;> first | rfl | cases h

/-- A stored value rounds to its own place. -/
private theorem rounds_store {u : UnpackedFloat} (hu : Reduced u) (hf : u.isFinite = true) :
    (store u).isNaN = false ∧ Rounds (exactValue u) (place (store u)) := by
  obtain ⟨hn, hp⟩ := place_store hu (isNaN_of_isFinite hf)
  obtain ⟨h1, h2⟩ := place_bounds hn
  refine ⟨hn, ?_⟩
  rw [← value_rank hu hf, ← hp]
  exact rounds_value h1 h2

/-- Making room for more bits leaves the exponent of a number alone. -/
private theorem totalExponent_shiftLeft {n : ℕ} (hn : 0 < n) (a : ℕ) (e : ℤ) :
    totalExponent (n <<< a) (e - a) = totalExponent n e := by
  have hlog : (n <<< a).log2 = n.log2 + a := by
    induction a with
    | zero => rfl
    | succ a ih =>
      rw [Nat.shiftLeft_succ, Nat.log2_two_mul (by rw [Nat.shiftLeft_eq]; positivity), ih]
      rfl
  unfold totalExponent
  rw [hlog]
  push_cast
  ring

/-- A number of steps with a sign rounds to the nearest double. -/
private theorem rounds_round (s : Sign) {n : ℕ} (hn : 0 < n) {e : ℤ} (he : -1074 ≤ e) :
    (store (round Format.binary64 s n e)).isNaN = false ∧
      Rounds (s.apply (n * 2 ^ (e + 1075).toNat))
        (place (store (round Format.binary64 s n e))) := by
  have ht : -1074 ≤ Format.binary64.targetExponent (totalExponent n e) := le_max_right _ _
  generalize ha : (e - Format.binary64.targetExponent (totalExponent n e)).toNat = a
  have hr : round Format.binary64 s n e =
      roundWithAccuracy Format.binary64 s (n <<< a) (e - a) .exact := by
    rw [← ha]
    rfl
  -- `a` is the room that the significand needs to be shifted into its binade
  have htotal := totalExponent_shiftLeft hn a e
  have h := rounds_roundWithAccuracy s (m := n <<< a) (x := n * 2 ^ (e + 1075).toNat) (j := 0)
    (i := (e - a + 1075).toNat) (e := e - a)
    (by rw [Nat.shiftLeft_eq]; positivity)
    (by
      rw [Nat.shiftLeft_eq, pow_zero, mul_one, mul_assoc, ← pow_add]
      congr 2
      omega)
    (by omega)
    (by rw [htotal]; omega)
  rw [hr]
  push_cast at h
  exact h

/-- A signed number of steps rounds to the nearest double. -/
private theorem rounds_normalize (m : ℤ) {e : ℤ} (he : -1074 ≤ e) :
    (store (UnpackedFloat.normalize Format.binary64 m e .positive)).isNaN = false ∧
      Rounds (m * 2 ^ (e + 1075).toNat)
        (place (store (UnpackedFloat.normalize Format.binary64 m e .positive))) := by
  rcases lt_trichotomy m 0 with h | rfl | h
  · have hn : UnpackedFloat.normalize Format.binary64 m e .positive =
        round Format.binary64 .negative (-m).toNat e := by
      unfold UnpackedFloat.normalize
      rw [Int.compare_eq_lt.2 h]
    have hm : ((-m).toNat : ℤ) = -m := Int.toNat_of_nonneg (by omega)
    have := rounds_round .negative (n := (-m).toNat) (by omega) he
    rw [hn]
    rwa [apply_mul, hm, show Sign.negative.apply (-m) = m from neg_neg m] at this
  · have hn : UnpackedFloat.normalize Format.binary64 0 e .positive = .zero .positive := rfl
    rw [hn, zero_mul]
    exact rounds_store (u := .zero .positive) trivial rfl
  · have hn : UnpackedFloat.normalize Format.binary64 m e .positive =
        round Format.binary64 .positive m.toNat e := by
      unfold UnpackedFloat.normalize
      rw [Int.compare_eq_gt.2 h]
    have hm : (m.toNat : ℤ) = m := Int.toNat_of_nonneg (by omega)
    have := rounds_round .positive (n := m.toNat) (by omega) he
    rw [hn]
    rwa [apply_mul, hm, show Sign.positive.apply m = m from rfl] at this

/-- The sum of two finite values is the exact sum, rounded. -/
private theorem rounds_store_add {u v : UnpackedFloat} (hu : Reduced u) (hv : Reduced v)
    (fu : u.isFinite = true) (fv : v.isFinite = true) :
    (store (UnpackedFloat.add Format.binary64 u v)).isNaN = false ∧
      Rounds (exactValue u + exactValue v)
        (place (store (UnpackedFloat.add Format.binary64 u v))) := by
  -- a zero leaves the other summand as it is, up to the sign of zero
  cases u with
  | notANumber => cases fu
  | infinity s => cases fu
  | zero s =>
    rw [show exactValue (.zero s) = 0 from rfl, zero_add]
    cases v with
    | notANumber => cases fv
    | infinity t => cases fv
    | zero t =>
      have hz : ∃ r, UnpackedFloat.add Format.binary64 (.zero s) (.zero t) = .zero r := by
        cases s <;> cases t <;> exact ⟨_, rfl⟩
      obtain ⟨r, hz⟩ := hz
      rw [hz]
      exact rounds_store (u := .zero r) trivial rfl
    | finite t n d hn => exact rounds_store hv rfl
  | finite s m e hm =>
    cases v with
    | notANumber => cases fv
    | infinity t => cases fv
    | zero t =>
      rw [show exactValue (.zero t) = 0 from rfl, add_zero]
      exact rounds_store hu rfl
    | finite t n d hn =>
      have he := hu.1
      have hd := hv.1
      have h := rounds_normalize
        (s.apply (m <<< (e - min e d).toNat : ℕ) + t.apply (n <<< (d - min e d).toNat : ℕ))
        (e := min e d) (le_min he hd)
      -- both summands are counted in the steps of the smaller exponent
      have steps (r : Sign) (q : ℕ) {c : ℤ} (hc : min e d ≤ c) :
          r.apply (q <<< (c - min e d).toNat : ℕ) * 2 ^ (min e d + 1075).toNat =
            r.apply (q * 2 ^ (c + 1075).toNat) := by
        rw [← apply_mul, Nat.shiftLeft_eq]
        push_cast
        rw [mul_assoc, ← pow_add]
        congr 3
        omega
      rw [add_mul, steps s m (min_le_left e d), steps t n (min_le_right e d)] at h
      exact h

/-! ### Finite doubles -/

theorem reduced_toModel (x : Float) : Reduced x.toModel.unpack := reduced_unpack _

/-- A number stands at the rank of its unpacked value. -/
theorem place_eq_rank {x : Float} (h : x.isNaN = false) : place x = rank x.toModel.unpack :=
  (rank_unpack h).symm

/-- The finite doubles stand strictly between the two infinities. -/
theorem isFinite_iff {x : Float} :
    x.isFinite = true ↔ x.isNaN = false ∧ -top < place x ∧ place x < top := by
  change x.toModel.unpack.isFinite = true ↔ x.toModel.unpack.isNaN = false ∧ _
  have hu : Reduced x.toModel.unpack := reduced_toModel x
  have hp : x.toModel.unpack.isNaN = false → place x = rank x.toModel.unpack := place_eq_rank
  generalize x.toModel.unpack = u at hu hp
  unfold top
  cases u with
  | notANumber => exact ⟨nofun, fun h => nomatch h.1⟩
  | infinity s =>
    have hr : rank (.infinity s) = s.apply 0x7ff0000000000000 := rfl
    refine ⟨nofun, fun h => ?_⟩
    rw [hp rfl, hr] at h
    cases s <;> simp only [Sign.apply] at h <;> omega
  | zero s =>
    refine ⟨fun _ => ⟨rfl, ?_⟩, fun _ => rfl⟩
    rw [hp rfl, show rank (.zero s) = 0 from rfl]
    decide
  | finite s m e hm =>
    refine ⟨fun _ => ⟨rfl, ?_⟩, fun _ => rfl⟩
    obtain ⟨h1, h2, h3, h4⟩ := hu
    have hr : rank (.finite s m e hm) = s.apply ((e + 1074) * 0x10000000000000 + m) := rfl
    rw [hp rfl, hr]
    cases s <;> simp only [Sign.apply] <;> omega

variable {x y : Float}

private theorem value_place (h : x.isFinite = true) :
    value (place x) = exactValue x.toModel.unpack := by
  rw [place_eq_rank (isFinite_iff.1 h).1, value_rank (reduced_toModel _) h]

/-- A sum of finite doubles is the exact sum, rounded. -/
theorem rounds_add (hx : x.isFinite = true) (hy : y.isFinite = true) :
    (x + y).isNaN = false ∧ Rounds (value (place x) + value (place y)) (place (x + y)) := by
  rw [value_place hx, value_place hy]
  exact rounds_store_add (reduced_toModel _) (reduced_toModel _) hx hy

private theorem reduced_neg {u : UnpackedFloat} (h : Reduced u) : Reduced u.neg := by
  cases u <;> exact h

private theorem isNaN_neg_unpacked (u : UnpackedFloat) : u.neg.isNaN = u.isNaN := by
  cases u <;> rfl

private theorem isFinite_neg_unpacked (u : UnpackedFloat) : u.neg.isFinite = u.isFinite := by
  cases u <;> rfl

private theorem exactValue_neg (u : UnpackedFloat) : exactValue u.neg = -exactValue u := by
  cases u with
  | finite s m e hm => exact neg_apply s _
  | _ => rfl

/-- Subtraction adds the negated value. -/
private theorem sub_eq_add_neg_unpacked (u v : UnpackedFloat) :
    UnpackedFloat.sub Format.binary64 u v = UnpackedFloat.add Format.binary64 u v.neg := by
  cases u with
  | finite s m e hm =>
    cases v with
    | finite t n d hn =>
      change UnpackedFloat.normalize _ (s.apply _ - t.apply _) _ _ =
        UnpackedFloat.normalize _ (s.apply _ + (-t).apply _) _ _
      rw [neg_apply, sub_eq_add_neg]
    | _ => rfl
  | _ => cases v <;> rfl

/-- A difference of finite doubles is the exact difference, rounded. -/
theorem rounds_sub (hx : x.isFinite = true) (hy : y.isFinite = true) :
    (x - y).isNaN = false ∧ Rounds (value (place x) - value (place y)) (place (x - y)) := by
  have h : x - y =
      store (UnpackedFloat.add Format.binary64 x.toModel.unpack y.toModel.unpack.neg) :=
    congrArg store (sub_eq_add_neg_unpacked _ _)
  have hr := rounds_store_add (u := x.toModel.unpack) (v := y.toModel.unpack.neg)
    (reduced_toModel _) (reduced_neg (reduced_toModel _)) hx
    ((isFinite_neg_unpacked _).trans hy)
  rw [value_place hx, value_place hy, h]
  rwa [exactValue_neg, ← sub_eq_add_neg] at hr

/-- Half of a finite double is the exact half, rounded. -/
theorem rounds_half {n : ℤ} (hx : x.isFinite = true) (hn : 2 * n = value (place x)) :
    (0.5 * x).isNaN = false ∧ Rounds n (place (0.5 * x)) := by
  have half : (0.5 : Float).toModel.unpack =
      .finite .positive 0x10000000000000 (-53) (by decide) := rfl
  have hmul : 0.5 * x = store (UnpackedFloat.mul Format.binary64
      (.finite .positive 0x10000000000000 (-53) (by decide)) x.toModel.unpack) := by
    rw [← half]
    rfl
  rw [value_place hx] at hn
  rw [hmul]
  have hu : Reduced x.toModel.unpack := reduced_toModel x
  replace hx : x.toModel.unpack.isFinite = true := hx
  generalize x.toModel.unpack = u at hu hx hn
  cases u with
  | notANumber => cases hx
  | infinity s => cases hx
  | zero s =>
    replace hn : 2 * n = 0 := hn
    rw [show n = 0 by omega]
    cases s <;> exact rounds_store (u := .zero _) trivial rfl
  | finite s m e hm =>
    obtain ⟨h1, h2, h3, h4⟩ := hu
    obtain ⟨k, hk⟩ := Int.eq_ofNat_of_zero_le (by omega : 0 ≤ e + 1074)
    -- the product of the significands has more bits than a significand, none of them lost yet
    have hlog : 52 ≤ (0x10000000000000 * m).log2 := (Nat.le_log2 (by omega)).2 (by omega)
    have h := rounds_roundWithAccuracy s (m := 0x10000000000000 * m) (x := m * 2 ^ k)
      (i := k) (j := 52) (e := -53 + e) (by omega) (by ring) (by omega)
      (by rw [targetExponent_eq]; omega)
    have hprod : UnpackedFloat.mul Format.binary64
        (.finite .positive 0x10000000000000 (-53) (by decide)) (.finite s m e hm) =
          roundWithAccuracy Format.binary64 s (0x10000000000000 * m) (-53 + e) .exact := by
      cases s <;> rfl
    have hx2 : exactValue (.finite s m e hm) = 2 * s.apply (m * 2 ^ k) := by
      change s.apply _ = _
      rw [show (e + 1075).toNat = k + 1 by omega, pow_succ, ← mul_assoc, apply_mul, mul_comm]
    rw [hprod, show n = s.apply ((m * 2 ^ k : ℕ) : ℤ) by push_cast; omega]
    exact h

/-- Half of a finite double is finite. -/
theorem isFinite_half (hx : x.isFinite = true) (h0 : 0 ≤ place x) :
    (0.5 * x).isFinite = true := by
  obtain ⟨n, hn⟩ := even_value (place x)
  obtain ⟨hnan, hr⟩ := rounds_half hx hn.symm
  obtain ⟨-, h1, h2⟩ := isFinite_iff.1 hx
  -- the half lies between zero and the number itself
  have hpos := value_le_value.2 h0
  rw [value_zero] at hpos
  have hle := hr.le_of_le_value (q := place x) (by omega) (by omega) (by omega)
  have hge := hr.le_of_value_le (q := 0) (by decide) (by decide) (by rw [value_zero]; omega)
  have ht : 0 < top := by decide
  exact isFinite_iff.2 ⟨hnan, by omega, by omega⟩

/-! ### Infinities and signs -/

/-- An infinity absorbs every finite summand. -/
theorem add_infinite (hx : x.isFinite = true) (s : Sign) :
    x + store (.infinity s) = store (.infinity s) := by
  have hinf : (store (.infinity s)).toModel.unpack = .infinity s := by cases s <;> rfl
  have hadd : x + store (.infinity s) =
      store (UnpackedFloat.add Format.binary64 x.toModel.unpack (.infinity s)) :=
    congrArg (fun u => store (UnpackedFloat.add Format.binary64 x.toModel.unpack u)) hinf
  rw [hadd]
  replace hx : x.toModel.unpack.isFinite = true := hx
  generalize x.toModel.unpack = u at hx
  cases u with
  | notANumber => cases hx
  | infinity t => cases hx
  | zero t => rfl
  | finite t m e hm => rfl

/-- An infinity absorbs every finite subtrahend. -/
theorem infinite_sub (hy : y.isFinite = true) (s : Sign) :
    store (.infinity s) - y = store (.infinity s) := by
  have hinf : (store (.infinity s)).toModel.unpack = .infinity s := by cases s <;> rfl
  have hsub : store (.infinity s) - y =
      store (UnpackedFloat.sub Format.binary64 (.infinity s) y.toModel.unpack) :=
    congrArg (fun u => store (UnpackedFloat.sub Format.binary64 u y.toModel.unpack)) hinf
  rw [hsub]
  replace hy : y.toModel.unpack.isFinite = true := hy
  generalize y.toModel.unpack = u at hy
  cases u with
  | notANumber => cases hy
  | infinity t => cases hy
  | zero t => rfl
  | finite t m e hm => rfl

/-- Negative infinity absorbs every summand but positive infinity. -/
theorem neg_infinite_add (hy : y.isNaN = false) (h : place y < top) :
    store (.infinity .negative) + y = store (.infinity .negative) := by
  change store (UnpackedFloat.add Format.binary64 (.infinity .negative) y.toModel.unpack) = _
  rw [place_eq_rank hy] at h
  replace hy : y.toModel.unpack.isNaN = false := hy
  generalize y.toModel.unpack = u at h hy
  cases u with
  | notANumber => cases hy
  | infinity s =>
    cases s
    · rfl
    · exact absurd h (by decide)
  | zero s => rfl
  | finite s m e hm => rfl

/-- Negation mirrors the line of doubles at zero. -/
theorem place_neg (h : x.isNaN = false) : (-x).isNaN = false ∧ place (-x) = -place x := by
  have hp := place_store (u := x.toModel.unpack.neg) (reduced_neg (reduced_toModel x))
    ((isNaN_neg_unpacked _).trans h)
  have hr : rank x.toModel.unpack.neg = -rank x.toModel.unpack := by
    cases x.toModel.unpack with
    | infinity s => exact neg_apply s _
    | finite s m e hm => exact neg_apply s _
    | _ => rfl
  rw [hr, ← place_eq_rank h] at hp
  exact hp

/-- There is one NaN only once a double is unpacked. -/
private theorem unpack_of_isNaN (h : x.isNaN = true) : x.toModel.unpack = .notANumber := by
  replace h : x.toModel.unpack.isNaN = true := h
  cases hu : x.toModel.unpack <;> rw [hu] at h <;> first | rfl | cases h

/-- The negation of a NaN is a NaN. -/
theorem isNaN_neg (x : Float) : (-x).isNaN = x.isNaN := by
  cases h : x.isNaN
  · exact (place_neg h).1
  · change (store x.toModel.unpack.neg).isNaN = true
    rw [unpack_of_isNaN h]
    rfl

private theorem add_notANumber {u v : UnpackedFloat} (h : u = .notANumber ∨ v = .notANumber) :
    UnpackedFloat.add Format.binary64 u v = .notANumber := by
  rcases h with rfl | rfl
  · cases v <;> rfl
  · cases u <;> rfl

/-- A sum with a NaN is a NaN. -/
theorem isNaN_add (h : x.isNaN = true ∨ y.isNaN = true) : (x + y).isNaN = true := by
  have hadd := add_notANumber (h.imp unpack_of_isNaN unpack_of_isNaN)
  change (store (UnpackedFloat.add Format.binary64 x.toModel.unpack y.toModel.unpack)).isNaN = true
  rw [hadd]
  rfl

/-- A difference with a NaN is a NaN. -/
theorem isNaN_sub (h : x.isNaN = true ∨ y.isNaN = true) : (x - y).isNaN = true := by
  have hneg (hy : y.isNaN = true) : y.toModel.unpack.neg = .notANumber :=
    congrArg UnpackedFloat.neg (unpack_of_isNaN hy)
  have hadd := add_notANumber (h.imp unpack_of_isNaN hneg)
  change (store (UnpackedFloat.sub Format.binary64 x.toModel.unpack y.toModel.unpack)).isNaN = true
  rw [sub_eq_add_neg_unpacked, hadd]
  rfl

/-- Half of a NaN is a NaN. -/
theorem isNaN_half (h : x.isNaN = true) : (0.5 * x).isNaN = true := by
  change (store (UnpackedFloat.mul Format.binary64 (0.5 : Float).toModel.unpack
    x.toModel.unpack)).isNaN = true
  rw [unpack_of_isNaN h]
  rfl

/-- Apart from the two zeros, no two doubles share a place. -/
theorem eq_of_place_eq (h : place x = place y) (h0 : place x ≠ 0) : x = y := by
  apply eq_of_toBits_eq
  apply UInt64.toNat_inj.1
  have hx : x.toBits.toNat < 0x10000000000000000 := x.toBits.toNat_lt
  have hy : y.toBits.toNat < 0x10000000000000000 := y.toBits.toNat_lt
  -- positive places are magnitudes without the sign bit, negative ones are magnitudes with it
  unfold place at h h0
  split at h <;> split at h <;> omega

/-- Positive infinity is the only number at the end of the line. -/
theorem eq_infinity (hn : x.isNaN = false) (h : top ≤ place x) :
    x = store (.infinity .positive) := by
  have hx := (place_bounds hn).2
  have hp : place (store (.infinity .positive)) = top := by decide
  refine eq_of_place_eq ?_ ?_ <;> unfold top at * <;> omega

/-- Negative infinity is the only number at the start of the line. -/
theorem eq_neg_infinity (hn : x.isNaN = false) (h : place x ≤ -top) :
    x = store (.infinity .negative) := by
  have hx := (place_bounds hn).1
  have hp : place (store (.infinity .negative)) = -top := by decide
  refine eq_of_place_eq ?_ ?_ <;> unfold top at * <;> omega

/-- Half of positive infinity is positive infinity. -/
theorem half_infinite : 0.5 * store (.infinity .positive) = store (.infinity .positive) := by
  rfl

theorem le_trans {z : Float} (hxy : x ≤ y) (hyz : y ≤ z) : x ≤ z := by
  rw [le_iff] at hxy hyz ⊢
  exact ⟨hxy.1, hyz.2.1, hxy.2.2.trans hyz.2.2⟩

/-! ### Signs -/

/-- Zero stands in the middle of the line. -/
private theorem place_zero : place 0.0 = 0 := rfl

/-- Zero is a number. -/
private theorem isNaN_zero : (0.0 : Float).isNaN = false := rfl

theorem zero_lt_iff : 0.0 < x ↔ x.isNaN = false ∧ 0 < place x := by
  simp only [lt_iff, place_zero, isNaN_zero, true_and]

theorem lt_zero_iff : x < 0.0 ↔ x.isNaN = false ∧ place x < 0 := by
  simp only [lt_iff, place_zero, isNaN_zero, true_and]

theorem zero_le_iff : 0.0 ≤ x ↔ x.isNaN = false ∧ 0 ≤ place x := by
  simp only [le_iff, place_zero, isNaN_zero, true_and]

theorem le_zero_iff : x ≤ 0.0 ↔ x.isNaN = false ∧ place x ≤ 0 := by
  simp only [le_iff, place_zero, isNaN_zero, true_and]

theorem beq_zero_iff : (x == 0.0) = true ↔ x.isNaN = false ∧ place x = 0 := by
  simp only [beq_iff, place_zero, isNaN_zero, true_and]

end TrajectoryEvents.Binary64
