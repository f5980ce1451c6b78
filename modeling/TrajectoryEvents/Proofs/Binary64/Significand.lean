import TrajectoryEvents.Binary64.Nearest
import TrajectoryEvents.Proofs.Binary64.Rounding

/-!
# Rounding of significands

An exact result `m · 2 ^ e` is brought to the exponent of its binade by shifting bits out of `m`.
Two of the lost bits are remembered: the last one, and whether any before it was set. They suffice
to round the significand to the nearest one, ties to even, and this module shows that the double
with that significand is the one nearest to the exact result.

## Main results

* `roundedMantissa_shiftRight`: shifting and rounding is division rounded to nearest.
* `place_store`, `place_store_finite`: the place of a value that is stored.
* `rounds_of_steps`: a number in a binade rounds to the step nearest to it.
* `rounds_roundWithAccuracy`: a rounded result stands at the place nearest to the exact one.
-/

namespace TrajectoryEvents.Binary64

open Float.Model Float.Model.UnpackedFloat

/-! ### Stored values -/

/-- The double that an unpacked value is stored as. -/
def store (u : UnpackedFloat) : Float := .ofModel (.pack u)

/-- A double with the sign `s` and the magnitude `n` stands at the place `s.apply n`. -/
private theorem place_of_toNat {x : Float} {s : Sign} {n : ℕ} (hn : n ≤ 0x7ff0000000000000)
    (h : x.toBits.toNat = s.toBitVec.toNat * 0x8000000000000000 + n) :
    x.isNaN = false ∧ place x = s.apply n := by
  rw [isNaN_eq, decide_eq_false_iff_not]
  unfold place
  cases s with
  | negative =>
    replace h : x.toBits.toNat = 1 * 0x8000000000000000 + n := h
    change _ ∧ _ = -(n : ℤ)
    rw [if_neg (by omega)]
    omega
  | positive =>
    replace h : x.toBits.toNat = 0 * 0x8000000000000000 + n := h
    change _ ∧ _ = (n : ℤ)
    rw [if_pos (by omega)]
    omega

/-- A finite value with a significand in its binade is stored at its rank, or as an infinity if its
exponent is too great. -/
theorem place_store_finite (s : Sign) {m k : ℕ} {e : ℤ} (hm : 0 < m) (hu : m < 0x20000000000000)
    (he : e = k - 1074) (hl : 0 < k → 0x10000000000000 ≤ m) :
    (store (.finite s m e hm)).isNaN = false ∧
      place (store (.finite s m e hm)) = s.apply (min (k * 0x10000000000000 + m) top) := by
  have hb (n : ℕ) (hn : n ≤ 0x7ff0000000000000)
      (h : (UnpackedFloat.pack Format.binary64 (.finite s m e hm)).toNat =
        s.toBitVec.toNat * 0x8000000000000000 + n) :=
    place_of_toNat (x := store (.finite s m e hm)) hn h
  rcases Nat.lt_or_ge k 2046 with hk | hk
  · have hn : min ((k : ℤ) * 0x10000000000000 + m) top = (k * 0x10000000000000 + m : ℕ) := by
      unfold top
      push_cast
      omega
    rw [hn]
    refine hb _ (by omega) ?_
    -- without the leading bit the exponent field is zero, with it that bit is not stored
    rcases Nat.lt_or_ge m 0x10000000000000 with h | h
    · rw [pack_subnormal s hm h (by omega), toNat_packComponents, BitVec.toNat_ofNat,
        BitVec.toNat_ofNat]
      omega
    · rw [pack_normal s (k := k + 1) hm h hu (by omega) (by omega), toNat_packComponents,
        BitVec.toNat_ofNat, BitVec.toNat_ofNat]
      omega
  -- the exponent field would not fit: the value is stored as an infinity
  · have hn : min ((k : ℤ) * 0x10000000000000 + m) top = (0x7ff0000000000000 : ℕ) := by
      unfold top
      push_cast
      omega
    rw [hn]
    refine hb _ le_rfl ?_
    have hp : UnpackedFloat.pack Format.binary64 (.finite s m e hm) =
        packComponents Format.binary64 s (-1#11) 0 := by
      have hbias : Format.binary64.exponentBias = 1023 := rfl
      unfold UnpackedFloat.pack
      exact if_pos (by simp only [hbias]; omega)
    rw [hp, toNat_packComponents, show (-1#11).toNat = 2047 from rfl,
      show (0 : BitVec 52).toNat = 0 from rfl]

/-- A value in reduced form is stored at its rank. -/
theorem place_store {u : UnpackedFloat} (hu : Reduced u) (hn : u.isNaN = false) :
    (store u).isNaN = false ∧ place (store u) = rank u := by
  cases u with
  | notANumber => cases hn
  | infinity s => cases s <;> exact ⟨by decide, by decide⟩
  | zero s => cases s <;> exact ⟨by decide, by decide⟩
  | finite s m e hm =>
    obtain ⟨h1, h2, h3, h4⟩ := hu
    obtain ⟨k, hk⟩ := Int.eq_ofNat_of_zero_le (by omega : 0 ≤ e + 1074)
    have h := place_store_finite s hm h3 (k := k) (e := e) (by omega) (by omega)
    have hmin : min ((k : ℤ) * 0x10000000000000 + m) top = (e + 1074) * 0x10000000000000 + m := by
      unfold top
      omega
    rwa [hmin] at h

/-! ### Shifting and rounding -/

/-- What is known of a number after its lowest bits are shifted out. -/
private structure Shifted (em : ExtendedMantissa) (m n : ℕ) : Prop where
  mantissa : em.mantissa = m / 2 ^ n
  roundBit : em.roundBit = true ↔ 2 ^ n ≤ 2 * (m % 2 ^ n)
  stickyBit : em.stickyBit = true ↔ 2 * (m % 2 ^ n) ≠ 0 ∧ 2 * (m % 2 ^ n) ≠ 2 ^ n

private theorem Shifted.shiftRightOne {em : ExtendedMantissa} {m n : ℕ} (h : Shifted em m n) :
    Shifted em.shiftRightOne m (n + 1) := by
  have hpos : 0 < 2 ^ n := Nat.two_pow_pos n
  have hlt : m % 2 ^ n < 2 ^ n := Nat.mod_lt _ hpos
  have hmod : m % 2 ^ (n + 1) = m % 2 ^ n + 2 ^ n * (m / 2 ^ n % 2) := by
    rw [pow_succ, Nat.mod_mul]
  refine ⟨?_, ?_, ?_⟩
  · change em.mantissa / 2 = _
    rw [h.mantissa, Nat.div_div_eq_div_mul, pow_succ]
  -- the bit that is lost now was the lowest one of the mantissa
  · change (em.mantissa % 2 != 0) = true ↔ _
    rw [h.mantissa, hmod, bne_iff_ne]
    rcases Nat.mod_two_eq_zero_or_one (m / 2 ^ n) with h2 | h2 <;> rw [h2, pow_succ] <;> omega
  -- the bits lost before stand below it
  · change (em.roundBit || em.stickyBit) = true ↔ _
    rw [Bool.or_eq_true, h.roundBit, h.stickyBit, hmod]
    rcases Nat.mod_two_eq_zero_or_one (m / 2 ^ n) with h2 | h2 <;> rw [h2, pow_succ] <;> omega

private theorem shifted_shiftRight (m n : ℕ) :
    Shifted (ExtendedMantissa.ofMantissaAndAccuracy m .exact >>> n) m n := by
  change Shifted (n.repeat ExtendedMantissa.shiftRightOne ⟨m, false, false⟩) m n
  induction n with
  | zero => exact ⟨by simp [Nat.repeat], by simp [Nat.repeat, Nat.mod_one],
      by simp [Nat.repeat, Nat.mod_one]⟩
  | succ n ih => exact ih.shiftRightOne

/-- Shifting bits out and rounding is division by a power of two, rounded to the nearest number. -/
theorem roundedMantissa_shiftRight (m n : ℕ) :
    (ExtendedMantissa.ofMantissaAndAccuracy m .exact >>> n).roundedMantissa =
      roundDiv m (2 ^ n) := by
  have h := shifted_shiftRight m n
  generalize ExtendedMantissa.ofMantissaAndAccuracy m .exact >>> n = em at h
  obtain ⟨q, r, s⟩ := em
  obtain ⟨hq, hr, hs⟩ := h
  dsimp only at hq hr hs
  have hpos : 0 < 2 ^ n := Nat.two_pow_pos n
  unfold roundDiv
  rw [← hq]
  -- the two bits compare the remainder with one half: zero, less, equal, greater
  cases r <;> cases s
  · change q = _
    simp only [Bool.false_eq_true, false_iff] at hr hs
    rw [if_pos (by omega)]
  · change q = _
    simp only [Bool.false_eq_true, false_iff, true_iff] at hr hs
    rw [if_pos (by omega)]
  · change q + q % 2 = _
    simp only [Bool.false_eq_true, false_iff, true_iff] at hr hs
    rw [if_neg (by omega), if_neg (by omega)]
  · change q + 1 = _
    simp only [true_iff] at hr hs
    rw [if_neg (by omega), if_pos (by omega)]

/-- A quotient rounded to the nearest number is off by at most one half, and by exactly one half
only if it is even. -/
theorem roundDiv_spec (n : ℕ) {d : ℕ} (hd : 0 < d) :
    (2 * n < (2 * roundDiv n d + 1) * d ∨
      2 * n = (2 * roundDiv n d + 1) * d ∧ roundDiv n d % 2 = 0) ∧
    (2 * roundDiv n d * d < 2 * n + d ∨
      2 * roundDiv n d * d = 2 * n + d ∧ roundDiv n d % 2 = 0) := by
  have hlt := Nat.mod_lt n hd
  have hn : n = n / d * d + n % d := (Nat.div_add_mod' n d).symm
  unfold roundDiv
  generalize n / d = q at hn ⊢
  generalize n % d = r at hn hlt ⊢
  subst hn
  split
  next h => constructor <;> left <;> linarith
  next h =>
    split
    next h' => constructor <;> left <;> linarith
    -- a tie: the quotient stays if it is even, and becomes even otherwise
    next h' =>
      have hr : 2 * r = d := by omega
      rcases Nat.mod_two_eq_zero_or_one q with h2 | h2
      · rw [h2]
        constructor
        · exact .inr ⟨by linarith, by omega⟩
        · left
          linarith
      · rw [h2]
        constructor
        · left
          linarith
        · exact .inr ⟨by linarith, by omega⟩

/-! ### Rounding at a binade -/

private theorem StaysBelow.mono {x p q : ℤ} (h : StaysBelow x p) (hq : p ≤ q) : StaysBelow x q := by
  rcases eq_or_lt_of_le hq with rfl | hlt
  · exact h
  · have h1 : value p < value q := value_lt_value.2 hlt
    have h2 : value (p + 1) ≤ value (q + 1) := value_le_value.2 (by omega)
    unfold StaysBelow at h ⊢
    omega

private theorem Reaches.mono {x p q : ℤ} (h : Reaches x p) (hq : q ≤ p) : Reaches x q := by
  rcases eq_or_lt_of_le hq with rfl | hlt
  · exact h
  · have h1 : value q < value p := value_lt_value.2 hlt
    have h2 : value (q - 1) ≤ value (p - 1) := value_le_value.2 (by omega)
    unfold Reaches at h ⊢
    omega

section Steps

variable {x k r : ℕ} (hr : r ≤ 0x20000000000000) (hl : 0 < k → 0x10000000000000 ≤ r)
include hr hl

/-- A number not below the middle before a step reaches the place of the step. -/
private theorem reaches_of_steps
    (below : 2 * r * 2 ^ (k + 1) < 2 * x + 2 ^ (k + 1) ∨
      2 * r * 2 ^ (k + 1) = 2 * x + 2 ^ (k + 1) ∧ r % 2 = 0)
    (first : 0 < k → 0x10000000000000 * 2 ^ (k + 1) ≤ x) :
    Reaches x (k * 0x10000000000000 + r) := by
  have hp := value_of_steps hr hl
  generalize hpdef : (k * 0x10000000000000 + r : ℤ) = p at hp ⊢
  rcases Nat.lt_or_ge (if k = 0 then 0 else 0x10000000000000) r with h | h
  -- the neighbour below is a step of the same binade
  · have hprev := value_of_steps (k := k) (r := r - 1) (by omega) (by split at h <;> omega)
    rw [show (k : ℤ) * 0x10000000000000 + (r - 1 : ℕ) = p - 1 by omega,
      show ((r - 1 : ℕ) : ℤ) = r - 1 by omega] at hprev
    unfold Reaches
    rw [hp, hprev, show p % 2 = (r : ℤ) % 2 by omega]
    zify at below
    rcases below with hb | ⟨hb, hb'⟩
    · left
      linarith
    · exact .inr ⟨by linarith, by omega⟩
  -- the first step of a binade: the neighbour below belongs to the binade before
  · left
    have hprev : value (p - 1) < value p := value_lt_value.2 (by omega)
    have hx : value p ≤ x := by
      rw [hp]
      rcases Nat.eq_zero_or_pos k with hk | hk
      · rw [if_pos hk] at h
        rw [show (r : ℤ) = 0 by omega]
        simp
      · rw [if_neg (by omega)] at h
        have hf := first hk
        have hlr := hl hk
        rw [show (r : ℤ) = 0x10000000000000 by omega]
        zify at hf
        exact hf
    omega

/-- A number not above the middle after a step stays below the places after that of the step. -/
private theorem staysBelow_of_steps
    (above : 2 * x < (2 * r + 1) * 2 ^ (k + 1) ∨ 2 * x = (2 * r + 1) * 2 ^ (k + 1) ∧ r % 2 = 0)
    (last : x < 0x20000000000000 * 2 ^ (k + 1)) :
    StaysBelow x (k * 0x10000000000000 + r) := by
  have hp := value_of_steps hr hl
  generalize hpdef : (k * 0x10000000000000 + r : ℤ) = p at hp ⊢
  rcases Nat.lt_or_ge r 0x20000000000000 with h | h
  · have hnext := value_of_steps (k := k) (r := r + 1) (by omega) (by omega)
    rw [show (k : ℤ) * 0x10000000000000 + (r + 1 : ℕ) = p + 1 by omega] at hnext
    unfold StaysBelow
    rw [hp, hnext, show p % 2 = (r : ℤ) % 2 by omega]
    zify at above
    push_cast
    rcases above with hb | ⟨hb, hb'⟩
    · left
      linarith
    · exact .inr ⟨by linarith, by omega⟩
  -- the step after the last of a binade is beyond the number
  · left
    have hnext : value p < value (p + 1) := value_lt_value.2 (by omega)
    have hx : (x : ℤ) < value p := by
      rw [hp, show (r : ℤ) = 0x20000000000000 by omega]
      zify at last
      exact last
    omega

/-- A number between the ends of a binade rounds to the step nearest to it. -/
theorem rounds_of_steps
    (above : 2 * x < (2 * r + 1) * 2 ^ (k + 1) ∨ 2 * x = (2 * r + 1) * 2 ^ (k + 1) ∧ r % 2 = 0)
    (below : 2 * r * 2 ^ (k + 1) < 2 * x + 2 ^ (k + 1) ∨
      2 * r * 2 ^ (k + 1) = 2 * x + 2 ^ (k + 1) ∧ r % 2 = 0)
    (first : 0 < k → 0x10000000000000 * 2 ^ (k + 1) ≤ x)
    (last : x < 0x20000000000000 * 2 ^ (k + 1)) :
    Rounds x (min (k * 0x10000000000000 + r : ℤ) top) := by
  have lower := reaches_of_steps hr hl below first
  have upper := staysBelow_of_steps hr hl above last
  generalize hpdef : (k * 0x10000000000000 + r : ℤ) = p at lower upper ⊢
  refine ⟨?_, min_le_right _ _, .inr (lower.mono (min_le_left _ _)), ?_⟩
  · unfold top
    omega
  -- past the largest double the infinity takes whatever reaches it
  · rcases min_choice p top with h | h
    · rw [h]
      exact .inr upper
    · exact .inl h

end Steps

/-! ### Rounding of exact results -/

/-- The exponent that a significand is brought to. -/
theorem targetExponent_eq (m : ℕ) (e : ℤ) :
    Format.binary64.targetExponent (totalExponent m e) = max (m.log2 + e - 52) (-1074) := by
  have h1 : Format.binary64.mantissaBits = 53 := rfl
  have h2 : Format.binary64.minExponent = -1074 := rfl
  unfold Format.targetExponent totalExponent
  rw [h1, h2]
  omega

private theorem roundDiv_le {m n : ℕ} (h : m < 0x20000000000000 * 2 ^ n) :
    roundDiv m (2 ^ n) ≤ 0x20000000000000 := by
  have hs := (roundDiv_spec m (Nat.two_pow_pos n)).2
  by_contra hlt
  have : (2 * 0x20000000000000 + 2) * 2 ^ n ≤ 2 * roundDiv m (2 ^ n) * 2 ^ n :=
    Nat.mul_le_mul_right _ (by omega)
  omega

private theorem le_roundDiv {m n : ℕ} (h : 0x10000000000000 * 2 ^ n ≤ m) :
    0x10000000000000 ≤ roundDiv m (2 ^ n) := by
  have hs := (roundDiv_spec m (Nat.two_pow_pos n)).1
  by_contra hlt
  have : (2 * roundDiv m (2 ^ n) + 1) * 2 ^ n ≤ (2 * 0x10000000000000 - 1) * 2 ^ n :=
    Nat.mul_le_mul_right _ (by omega)
  have := Nat.two_pow_pos n
  omega

/-- A significand that fits is not shifted any more. -/
private theorem shiftToTargetExponent_of_lt {r : ℕ} {t : ℤ} (hr : r < 0x20000000000000)
    (ht : -1074 ≤ t) :
    shiftToTargetExponent Format.binary64 r t .exact = (⟨r, false, false⟩, t) := by
  have hlog : r.log2 ≤ 52 := by
    rcases Nat.eq_zero_or_pos r with rfl | hpos
    · exact Nat.zero_le _
    · exact Nat.le_of_lt_succ ((Nat.log2_lt hpos.ne').2 hr)
  have hn : (Format.binary64.targetExponent (totalExponent r t) - t).toNat = 0 := by
    rw [targetExponent_eq]
    omega
  unfold shiftToTargetExponent shiftToExponent
  dsimp only
  rw [hn]
  exact congrArg (Prod.mk _) (by omega)

/-- Rounding up to the next power of two makes a significand one bit too long. -/
private theorem shiftToTargetExponent_carry {t : ℤ} (ht : -1074 ≤ t) :
    shiftToTargetExponent Format.binary64 0x20000000000000 t .exact =
      (⟨0x10000000000000, false, false⟩, t + 1) := by
  have hlog : Nat.log2 0x20000000000000 = 53 := by decide
  have hn : (Format.binary64.targetExponent (totalExponent 0x20000000000000 t) - t).toNat = 1 := by
    rw [targetExponent_eq, hlog]
    omega
  unfold shiftToTargetExponent shiftToExponent
  dsimp only
  rw [hn]
  rfl

/-- The value with a shifted significand. -/
private def settle (s : Sign) (c : ExtendedMantissa × ℤ) : UnpackedFloat :=
  if h : c.1.mantissa = 0 then .zero s else .finite s c.1.mantissa c.2 (Nat.pos_of_ne_zero h)

private theorem roundWithAccuracy_eq (s : Sign) {m n : ℕ} {e : ℤ}
    (hn : Format.binary64.targetExponent (totalExponent m e) = e + n) :
    roundWithAccuracy Format.binary64 s m e .exact =
      settle s (shiftToTargetExponent Format.binary64 (roundDiv m (2 ^ n)) (e + n) .exact) := by
  have first : shiftToTargetExponent Format.binary64 m e .exact =
      (ExtendedMantissa.ofMantissaAndAccuracy m .exact >>> n, e + n) := by
    unfold shiftToTargetExponent shiftToExponent
    dsimp only
    rw [hn, show (e + (n : ℤ) - e).toNat = n by omega]
  -- rounding may carry, so the rounded significand is shifted once more
  unfold roundWithAccuracy
  rw [first, ← roundedMantissa_shiftRight]
  rfl

/-- The place of a rounded significand. -/
private theorem place_store_settle (s : Sign) {r k : ℕ} (hr : r ≤ 0x20000000000000)
    (hl : 0 < k → 0x10000000000000 ≤ r) :
    (store (settle s (shiftToTargetExponent Format.binary64 r (k - 1074) .exact))).isNaN = false ∧
      place (store (settle s (shiftToTargetExponent Format.binary64 r (k - 1074) .exact))) =
        s.apply (min (k * 0x10000000000000 + r : ℤ) top) := by
  rcases Nat.lt_or_eq_of_le hr with h | rfl
  · rw [shiftToTargetExponent_of_lt h (by omega)]
    rcases Nat.eq_zero_or_pos r with rfl | hpos
    · have hk : k = 0 := by omega
      subst hk
      cases s <;> exact ⟨by decide, by decide⟩
    · have hs : settle s (⟨r, false, false⟩, (k : ℤ) - 1074) = .finite s r (k - 1074) hpos :=
        dif_neg hpos.ne'
      rw [hs]
      exact place_store_finite s hpos h rfl hl
  -- the significand carries into the next binade, which begins at the same place
  · rw [shiftToTargetExponent_carry (by omega)]
    have h := place_store_finite s (m := 0x10000000000000) (k := k + 1) (e := k - 1074 + 1)
      (by decide) (by decide) (by push_cast; ring) (by omega)
    have hp : ((k + 1 : ℕ) : ℤ) * 0x10000000000000 + (0x10000000000000 : ℕ) =
        k * 0x10000000000000 + (0x20000000000000 : ℕ) := by
      push_cast
      ring
    rwa [hp] at h

/-- If `x` and `m` count the same number in two units, then it compares with the steps of a binade
as they do. -/
private theorem rescale_lt_iff {m x i j k n : ℕ} (hx : x * 2 ^ j = m * 2 ^ i)
    (hunit : k + 1 + j = n + i) (a b c d : ℕ) :
    a * 2 ^ (k + 1) + b * x < c * 2 ^ (k + 1) + d * x ↔
      a * 2 ^ n + b * m < c * 2 ^ n + d * m := by
  have scale (a b : ℕ) :
      (a * 2 ^ (k + 1) + b * x) * 2 ^ j = (a * 2 ^ n + b * m) * 2 ^ i := by
    calc (a * 2 ^ (k + 1) + b * x) * 2 ^ j
        = a * 2 ^ (k + 1 + j) + b * (x * 2 ^ j) := by ring
      _ = a * 2 ^ (n + i) + b * (m * 2 ^ i) := by rw [hunit, hx]
      _ = (a * 2 ^ n + b * m) * 2 ^ i := by ring
  rw [← Nat.mul_lt_mul_right (Nat.two_pow_pos j), scale, scale,
    Nat.mul_lt_mul_right (Nat.two_pow_pos i)]

/-- A rounded result stands at the place nearest to the exact one. The number `x` is the exact
result, counted as `value` is: `m · 2 ^ e = x · 2 ^ (-1075)`. -/
theorem rounds_roundWithAccuracy (s : Sign) {m x i j : ℕ} {e : ℤ} (hm : 0 < m)
    (hx : x * 2 ^ j = m * 2 ^ i) (he : (i : ℤ) - j = e + 1075)
    (ht : e ≤ Format.binary64.targetExponent (totalExponent m e)) :
    (store (roundWithAccuracy Format.binary64 s m e .exact)).isNaN = false ∧
      Rounds (s.apply x) (place (store (roundWithAccuracy Format.binary64 s m e .exact))) := by
  have hmax := targetExponent_eq m e
  obtain ⟨n, hn⟩ := Int.eq_ofNat_of_zero_le (Int.sub_nonneg.2 ht)
  obtain ⟨k, hk⟩ := Int.eq_ofNat_of_zero_le
    (by omega : 0 ≤ Format.binary64.targetExponent (totalExponent m e) + 1074)
  rw [roundWithAccuracy_eq s (n := n) (by omega), show e + (n : ℤ) = k - 1074 by omega]
  -- `n` bits of `m` are lost, and what is left of it is a significand of the binade `k`
  have upper : m < 0x20000000000000 * 2 ^ n := by
    have h : 2 ^ (m.log2 + 1) ≤ 2 ^ (53 + n) := Nat.pow_le_pow_right (by decide) (by omega)
    rw [pow_add 2 53] at h
    exact Nat.lt_of_lt_of_le Nat.lt_log2_self h
  have lower (h : 0 < k) : 0x10000000000000 * 2 ^ n ≤ m := by
    have hlog : m.log2 = 52 + n := by omega
    have h := Nat.log2_self_le hm.ne'
    rwa [hlog, pow_add] at h
  have hunit : k + 1 + j = n + i := by omega
  obtain ⟨above, below⟩ := roundDiv_spec m (Nat.two_pow_pos n)
  have hr := roundDiv_le upper
  have hl (h : 0 < k) := le_roundDiv (lower h)
  generalize roundDiv m (2 ^ n) = r at above below hr hl
  have hp := place_store_settle s hr hl
  have rounds : Rounds x (min (k * 0x10000000000000 + r : ℤ) top) := by
    have lt_iff (a b c d : ℕ) := rescale_lt_iff hx hunit a b c d
    refine rounds_of_steps hr hl ?_ ?_ ?_ ?_
    · have := lt_iff 0 2 (2 * r + 1) 0
      have := lt_iff (2 * r + 1) 0 0 2
      omega
    · have := lt_iff (2 * r) 0 1 2
      have := lt_iff 1 2 (2 * r) 0
      omega
    · intro hk
      have := lt_iff 0 1 0x10000000000000 0
      have := lower hk
      omega
    · have := lt_iff 0 1 0x20000000000000 0
      omega
  refine ⟨hp.1, ?_⟩
  rw [hp.2]
  cases s with
  | negative => exact rounds.neg
  | positive => exact rounds

end TrajectoryEvents.Binary64
