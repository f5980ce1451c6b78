/-!
# Bit fields of a double

A double is stored as a sign bit, eleven exponent bits and fifty-two fraction bits. This module
reads those fields off the bit pattern as natural numbers and shows what they decide:

* a bit pattern is a NaN exactly when its magnitude exceeds that of an infinity (`isNaN_unpack`);
* the signed magnitude of a bit pattern is the rank of the value it encodes (`rank_unpack`);
* a bit pattern that is no NaN is stored unchanged (`toBits_ofBits`).
-/

namespace TrajectoryEvents.Binary64

open Float.Model Float.Model.UnpackedFloat

/-- The position of an unpacked value among all values of its format, counted in bit patterns from
zero. It is meant for values in reduced form; a NaN has no position and is sent to `0`. -/
def rank : UnpackedFloat → Int
  | .notANumber => 0
  | .zero _ => 0
  | .infinity s => s.apply (0x7ff0000000000000)
  | .finite s m e _ => s.apply ((e + 1074) * 0x10000000000000 + m)

/-- A finite value is in reduced form when its exponent is the one that its format stores: the
smallest exponent, or one that leaves a significand of exactly fifty-three bits. -/
def Reduced : UnpackedFloat → Prop
  | .finite _ m e _ =>
    -1074 ≤ e ∧ e ≤ 971 ∧ m < 0x20000000000000 ∧ (-1074 < e → 0x10000000000000 ≤ m)
  | _ => True

/-! ### Fields of a bit pattern -/

private theorem toNat_unpackMantissa (b : BitVec Format.binary64.numBits) :
    (unpackMantissa b).toNat = b.toNat % 0x10000000000000 := by
  simp [unpackMantissa, BitVec.extractLsb, BitVec.extractLsb']

private theorem toNat_unpackExponent (b : BitVec Format.binary64.numBits) :
    (unpackExponent b).toNat = b.toNat / 0x10000000000000 % 2048 := by
  simp [unpackExponent, BitVec.extractLsb, BitVec.extractLsb', Nat.shiftRight_eq_div_pow]

private theorem toNat_unpackSign (b : BitVec Format.binary64.numBits) :
    (unpackSign b).toNat = b.toNat / 0x8000000000000000 := by
  have hb : b.toNat < 0x10000000000000000 := b.isLt
  unfold unpackSign
  simp [BitVec.extractLsb, BitVec.extractLsb', Nat.shiftRight_eq_div_pow]
  omega

private theorem toNat_significand (v : BitVec 52) :
    (1#1 ++ v).toNat = 0x10000000000000 + v.toNat := by
  rw [BitVec.toNat_append, ← Nat.shiftLeft_add_eq_or_of_lt v.isLt]
  rfl

private theorem unpackExponent_eq_allOnes_iff (b : BitVec Format.binary64.numBits) :
    unpackExponent b = -1#11 ↔ b.toNat / 0x10000000000000 % 2048 = 2047 := by
  rw [← toNat_unpackExponent, ← BitVec.toNat_inj]
  rfl

private theorem unpackExponent_eq_zero_iff (b : BitVec Format.binary64.numBits) :
    unpackExponent b = 0#11 ↔ b.toNat / 0x10000000000000 % 2048 = 0 := by
  rw [← toNat_unpackExponent, ← BitVec.toNat_inj]
  rfl

private theorem unpackMantissa_eq_zero_iff (b : BitVec Format.binary64.numBits) :
    unpackMantissa b = 0#52 ↔ b.toNat % 0x10000000000000 = 0 := by
  rw [← toNat_unpackMantissa, ← BitVec.toNat_inj]
  rfl

/-! ### What a bit pattern encodes -/

/-- The sign that a bit pattern shows. -/
def signOf (b : BitVec Format.binary64.numBits) : Sign :=
  if b.toNat < 0x8000000000000000 then .positive else .negative

private theorem ofBitVec_unpackSign (b : BitVec Format.binary64.numBits) :
    Sign.ofBitVec (unpackSign b) = signOf b := by
  have hb : b.toNat < 0x10000000000000000 := b.isLt
  simp only [Sign.ofBitVec, signOf, ← BitVec.toNat_inj, toNat_unpackSign, BitVec.toNat_ofNat]
  congr 1
  simp only [eq_iff_iff]
  omega

private theorem finite_eq_finite {s t : Sign} {m n : Nat} {d e : Int} {hm : 0 < m} {hn : 0 < n}
    (hs : s = t) (h : m = n) (he : d = e) :
    UnpackedFloat.finite s m d hm = UnpackedFloat.finite t n e hn := by
  subst hs h he
  rfl

/-- What a bit pattern encodes is decided by its exponent and fraction fields: infinities and NaN
have the greatest exponent, zeros and subnormal numbers the least one. -/
theorem unpack_cases (b : BitVec Format.binary64.numBits) :
    (b.toNat / 0x10000000000000 % 2048 = 2047 ∧ b.toNat % 0x10000000000000 = 0 ∧
      UnpackedFloat.unpack Format.binary64 b = .infinity (signOf b)) ∨
    (b.toNat / 0x10000000000000 % 2048 = 2047 ∧ b.toNat % 0x10000000000000 ≠ 0 ∧
      UnpackedFloat.unpack Format.binary64 b = .notANumber) ∨
    (b.toNat / 0x10000000000000 % 2048 = 0 ∧ b.toNat % 0x10000000000000 = 0 ∧
      UnpackedFloat.unpack Format.binary64 b = .zero (signOf b)) ∨
    (b.toNat / 0x10000000000000 % 2048 = 0 ∧ ∃ h : 0 < b.toNat % 0x10000000000000,
      UnpackedFloat.unpack Format.binary64 b =
        .finite (signOf b) (b.toNat % 0x10000000000000) (-1074) h) ∨
    (0 < b.toNat / 0x10000000000000 % 2048 ∧ b.toNat / 0x10000000000000 % 2048 < 2047 ∧
      ∃ h : 0 < 0x10000000000000 + b.toNat % 0x10000000000000,
      UnpackedFloat.unpack Format.binary64 b =
        .finite (signOf b) (0x10000000000000 + b.toNat % 0x10000000000000)
          ((b.toNat / 0x10000000000000 % 2048 : Nat) - 1075) h) := by
  have hE := toNat_unpackExponent b
  have hM := toNat_unpackMantissa b
  have hs := ofBitVec_unpackSign b
  by_cases he : unpackExponent b = -1#11
  -- the greatest exponent: an infinity, or NaN if there is a fraction
  · have ne := (unpackExponent_eq_allOnes_iff b).1 he
    by_cases hm : unpackMantissa b = 0#52
    · refine .inl ⟨ne, (unpackMantissa_eq_zero_iff b).1 hm, ?_⟩
      exact ((if_pos he).trans (if_pos hm)).trans (congrArg UnpackedFloat.infinity hs)
    · refine .inr (.inl ⟨ne, mt (unpackMantissa_eq_zero_iff b).2 hm, ?_⟩)
      exact (if_pos he).trans (if_neg hm)
  · have ne := mt (unpackExponent_eq_allOnes_iff b).2 he
    by_cases hz : unpackExponent b = 0#11
    -- the least exponent: a zero, or a subnormal number if there is a fraction
    · have nz := (unpackExponent_eq_zero_iff b).1 hz
      by_cases hm : unpackMantissa b = 0#52
      · refine .inr (.inr (.inl ⟨nz, (unpackMantissa_eq_zero_iff b).1 hm, ?_⟩))
        exact ((if_neg he).trans ((if_pos hz).trans (dif_pos hm))).trans
          (congrArg UnpackedFloat.zero hs)
      · have nm := mt (unpackMantissa_eq_zero_iff b).2 hm
        refine .inr (.inr (.inr (.inl ⟨nz, Nat.pos_of_ne_zero nm, ?_⟩)))
        refine ((if_neg he).trans ((if_pos hz).trans (dif_neg hm))).trans
          (finite_eq_finite hs hM ?_)
        rw [hE, nz]
        rfl
    -- any other exponent: the significand has an implicit leading bit
    · have nz := mt (unpackExponent_eq_zero_iff b).2 hz
      refine .inr (.inr (.inr (.inr ⟨by omega, by omega, by omega, ?_⟩)))
      refine ((if_neg he).trans (if_neg hz)).trans (finite_eq_finite hs ?_ ?_)
      · rw [toNat_significand, hM]
      · rw [hE]
        rfl

/-- A bit pattern encodes a NaN exactly when its magnitude lies above that of an infinity. -/
theorem isNaN_unpack (b : BitVec Format.binary64.numBits) :
    (UnpackedFloat.unpack Format.binary64 b).isNaN =
      decide (0x7ff0000000000000 < b.toNat % 0x8000000000000000) := by
  have number (h : ¬ 0x7ff0000000000000 < b.toNat % 0x8000000000000000) :
      false = decide (0x7ff0000000000000 < b.toNat % 0x8000000000000000) :=
    (decide_eq_false h).symm
  rcases unpack_cases b with ⟨he, hm, h⟩ | ⟨he, hm, h⟩ | ⟨he, hm, h⟩ | ⟨he, hm, h⟩ |
    ⟨he, he', hm, h⟩ <;> rw [h]
  · exact number (by omega)
  · exact (decide_eq_true (by omega)).symm
  · exact number (by omega)
  · exact number (by omega)
  · exact number (by omega)

/-- Every stored finite value is in reduced form. -/
theorem reduced_unpack (b : BitVec Format.binary64.numBits) :
    Reduced (UnpackedFloat.unpack Format.binary64 b) := by
  rcases unpack_cases b with ⟨he, hm, h⟩ | ⟨he, hm, h⟩ | ⟨he, hm, h⟩ | ⟨he, hm, h⟩ |
    ⟨he, he', hm, h⟩ <;> rw [h]
  · trivial
  · trivial
  · trivial
  · exact ⟨by omega, by omega, by omega, by omega⟩
  · exact ⟨by omega, by omega, by omega, by omega⟩

private theorem apply_signOf (b : BitVec Format.binary64.numBits) (n : Int) :
    (signOf b).apply n = if b.toNat < 0x8000000000000000 then n else -n := by
  unfold signOf
  split <;> rfl

/-- The rank of the value that a bit pattern encodes is the signed magnitude of the pattern. -/
theorem rank_unpack {b : BitVec Format.binary64.numBits}
    (h : (UnpackedFloat.unpack Format.binary64 b).isNaN = false) :
    rank (UnpackedFloat.unpack Format.binary64 b) =
      if b.toNat < 0x8000000000000000 then (b.toNat : Int)
      else 0x8000000000000000 - (b.toNat : Int) := by
  have hb : b.toNat < 0x10000000000000000 := b.isLt
  rcases unpack_cases b with ⟨he, hm, h'⟩ | ⟨he, hm, h'⟩ | ⟨he, hm, h'⟩ | ⟨he, hm, h'⟩ |
    ⟨he, he', hm, h'⟩ <;> rw [h'] at h ⊢
  · refine (apply_signOf b _).trans ?_
    split <;> omega
  · cases h
  · refine Eq.trans (b := 0) rfl ?_
    split <;> omega
  · refine (apply_signOf b _).trans ?_
    split <;> omega
  · refine (apply_signOf b _).trans ?_
    split <;> omega

/-! ### Packing back -/

theorem toNat_packComponents (s : Sign) (e : BitVec 11) (m : BitVec 52) :
    (packComponents Format.binary64 s e m).toNat =
      s.toBitVec.toNat * 0x8000000000000000 + e.toNat * 0x10000000000000 + m.toNat := by
  unfold packComponents
  rw [BitVec.toNat_append, ← Nat.shiftLeft_add_eq_or_of_lt m.isLt, BitVec.toNat_append,
    ← Nat.shiftLeft_add_eq_or_of_lt e.isLt, Nat.shiftLeft_eq, Nat.shiftLeft_eq]
  omega

private theorem log2_eq_of_bounds {m : Nat} (hl : 0x10000000000000 ≤ m)
    (hu : m < 0x20000000000000) : m.log2 = 52 := by
  have h0 : m ≠ 0 := by omega
  have h1 : 52 ≤ m.log2 := (Nat.le_log2 h0).2 hl
  have h2 : ¬ 53 ≤ m.log2 := fun h => absurd ((Nat.le_log2 h0).1 h) (Nat.not_le.2 hu)
  omega

theorem pack_subnormal (s : Sign) {m : Nat} {e : Int} (hm : 0 < m)
    (hu : m < 0x10000000000000) (he : e = -1074) :
    UnpackedFloat.pack Format.binary64 (.finite s m e hm) =
      packComponents Format.binary64 s 0#11 (BitVec.ofNat 52 m) := by
  subst he
  have hlog : ¬ m.log2 + 1 = Format.binary64.mantissaBits := fun hc => by
    have hb : Format.binary64.mantissaBits = 53 := rfl
    have := (Nat.le_log2 (n := m) (k := 52) (by omega)).1 (by omega)
    omega
  unfold UnpackedFloat.pack
  exact (if_neg (by decide)).trans (if_neg hlog)

theorem pack_normal (s : Sign) {m k : Nat} {e : Int} (hm : 0 < m)
    (hl : 0x10000000000000 ≤ m) (hu : m < 0x20000000000000) (hk : k < 2047) (he : e = k - 1075) :
    UnpackedFloat.pack Format.binary64 (.finite s m e hm) =
      packComponents Format.binary64 s (BitVec.ofNat 11 k) (BitVec.ofNat 52 m) := by
  subst he
  have hlog : m.log2 + 1 = Format.binary64.mantissaBits := by
    rw [log2_eq_of_bounds hl hu]
    rfl
  have hexp : ((k : Int) - 1075 + Format.binary64.exponentBias +
      Format.binary64.mantissaBitsWithoutImplicit).toNat = k := by
    have hb : Format.binary64.exponentBias = 1023 := rfl
    simp only [hb]
    omega
  unfold UnpackedFloat.pack
  dsimp only
  simp only [hexp]
  exact (if_neg (by omega)).trans (if_pos hlog)

/-- A bit pattern that encodes no NaN is recovered from the value it encodes. -/
theorem pack_unpack {b : BitVec Format.binary64.numBits}
    (h : (UnpackedFloat.unpack Format.binary64 b).isNaN = false) :
    UnpackedFloat.pack Format.binary64 (UnpackedFloat.unpack Format.binary64 b) = b := by
  have hb : b.toNat < 0x10000000000000000 := b.isLt
  have hs : (signOf b).toBitVec.toNat = b.toNat / 0x8000000000000000 := by
    unfold signOf
    split <;> simp only [Sign.toBitVec, BitVec.toNat_ofNat] <;> omega
  rcases unpack_cases b with ⟨he, hm, h'⟩ | ⟨he, hm, h'⟩ | ⟨he, hm, h'⟩ | ⟨he, hm, h'⟩ |
    ⟨he, he', hm, h'⟩ <;> rw [h'] at h ⊢ <;> apply BitVec.eq_of_toNat_eq
  · refine (toNat_packComponents _ _ _).trans ?_
    rw [hs, show (-1#11).toNat = 2047 from rfl, show (0 : BitVec 52).toNat = 0 from rfl]
    omega
  · cases h
  · refine (toNat_packComponents _ _ _).trans ?_
    rw [hs, show (0 : BitVec 11).toNat = 0 from rfl, show (0 : BitVec 52).toNat = 0 from rfl]
    omega
  · rw [pack_subnormal _ _ (by omega) rfl, toNat_packComponents, hs, BitVec.toNat_ofNat,
      BitVec.toNat_ofNat]
    omega
  · rw [pack_normal _ _ (by omega) (by omega) he' rfl, toNat_packComponents, hs,
      BitVec.toNat_ofNat, BitVec.toNat_ofNat]
    omega

/-! ### Doubles and their bits -/

/-- A double is a NaN exactly when the magnitude of its bits lies above that of an infinity. -/
theorem isNaN_eq (x : Float) :
    x.isNaN = decide (0x7ff0000000000000 < x.toBits.toNat % 0x8000000000000000) :=
  isNaN_unpack x.toModel.toBits.toBitVec

/-- Every NaN is stored with the same bits. -/
theorem toBits_of_isNaN {x : Float} (h : x.isNaN = true) :
    x.toBits.toNat = 0x7ff8000000000000 := by
  have hb : x.toModel.toBits.toBitVec.toNat < 0x10000000000000000 := x.toModel.toBits.toBitVec.isLt
  rw [isNaN_eq, decide_eq_true_iff] at h
  have hv := x.toModel.valid.eq_packedNaN
    ((unpackExponent_eq_allOnes_iff _).2 (by
      change x.toBits.toNat / 0x10000000000000 % 2048 = 2047
      omega))
    (mt (unpackMantissa_eq_zero_iff _).1 (by
      change ¬ x.toBits.toNat % 0x10000000000000 = 0
      omega))
  exact congrArg BitVec.toNat hv

/-- Bits that encode no NaN are stored unchanged. -/
theorem toBits_ofBits {b : UInt64} (h : b.toNat % 0x8000000000000000 ≤ 0x7ff0000000000000) :
    (Float.ofBits b).toBits = b := by
  have hn : (UnpackedFloat.unpack Format.binary64 b.toBitVec).isNaN = false := by
    rw [isNaN_unpack]
    exact decide_eq_false (Nat.not_lt.2 h)
  exact congrArg UInt64.ofBitVec (pack_unpack hn)

/-- A double is determined by its bits. -/
theorem eq_of_toBits_eq {x y : Float} (h : x.toBits = y.toBits) : x = y := by
  obtain ⟨⟨a, ha⟩⟩ := x
  obtain ⟨⟨b, hb⟩⟩ := y
  cases (h : a = b)
  rfl

/-- Reading back the bits of a double gives the double. -/
theorem ofBits_toBits (x : Float) : Float.ofBits x.toBits = x := by
  have hx : x.toModel.unpack.isNaN =
      decide (0x7ff0000000000000 < x.toBits.toNat % 0x8000000000000000) :=
    isNaN_unpack x.toModel.toBits.toBitVec
  apply eq_of_toBits_eq
  by_cases h : x.toBits.toNat % 0x8000000000000000 ≤ 0x7ff0000000000000
  · exact toBits_ofBits h
  · have hn : x.isNaN = true := by
      rw [isNaN_eq]
      exact decide_eq_true (by omega)
    have hu : x.toModel.unpack = .notANumber := by
      revert hn
      change x.toModel.unpack.isNaN = true → _
      cases x.toModel.unpack <;> first | exact fun _ => rfl | exact nofun
    apply UInt64.toNat_inj.1
    rw [toBits_of_isNaN hn]
    change (Float.Model.pack x.toModel.unpack).toBits.toNat = _
    rw [hu]
    rfl

end TrajectoryEvents.Binary64
