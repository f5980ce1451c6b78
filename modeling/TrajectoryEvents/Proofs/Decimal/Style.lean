import Mathlib.Data.List.Induction
import TrajectoryEvents.Decimal.Style
import TrajectoryEvents.Proofs.Binary64.Arithmetic
import TrajectoryEvents.Proofs.Decimal.Shortest

/-!
# Written doubles read back

A style decides where the digits of a decimal number stand and whether an exponent is written. Zeros
up to the decimal point and a zero after it change nothing about the number that is denoted. So
every style that writes the sign of an exponent as it is denotes, for any finite double, the
shortest decimal of that double, and the double is read back.

## Main definitions

* `Numeral.WellFormed`: a numeral without superfluous leading zeros and without missing digits.

## Main results

* `NumberStyle.value_decimal`: a decimal number in a style denotes that decimal number.
* `NumberStyle.wellFormed_decimal`: it is well formed.
* `NumberStyle.toFloat?_numeral`: a finite double in a style is read back.
-/

namespace TrajectoryEvents

/-! ### Digits -/

/-- The digits behind others shift these to the left. -/
theorem ofDigits_append (as bs : List Digit) :
    ofDigits (as ++ bs) = ofDigits as * 10 ^ bs.length + ofDigits bs := by
  induction bs using List.reverseRecOn with
  | nil => simp [ofDigits]
  | append_singleton bs b ih =>
    rw [← List.append_assoc, ofDigits_concat, ofDigits_concat, ih, List.length_append,
      List.length_singleton, pow_succ]
    ring

@[simp]
theorem ofDigits_replicate_zero (k : ℕ) : ofDigits (List.replicate k 0) = 0 := by
  induction k with
  | zero => rfl
  | succ k ih => rw [List.replicate_succ', ofDigits_concat, ih, Fin.val_zero]

/-- The digits of a positive number do not begin with a zero. -/
theorem digits_ne_zero_cons {n : ℕ} (hn : 0 < n) (ds : List Digit) : digits n ≠ 0 :: ds := by
  fun_induction digits n generalizing ds with
  | case1 n h =>
    intro heq
    have := congrArg Fin.val (List.cons.inj heq).1
    simp_all
  | case2 n h ih =>
    intro heq
    obtain ⟨d, rest, hd⟩ := List.exists_cons_of_ne_nil (digits_ne_nil (n / 10))
    rw [hd, List.cons_append] at heq
    obtain ⟨rfl, -⟩ := List.cons.inj heq
    exact ih (by omega) rest hd

/-! ### Well-formed numerals -/

/-- A numeral that can be written: there is a digit before the decimal point, a zero stands there
alone, and an exponent has digits. -/
structure Numeral.WellFormed (n : Numeral) : Prop where
  whole_ne_nil : n.whole ≠ []
  leading : ∀ ds, n.whole = 0 :: ds → ds = []
  exponent : ∀ e, n.exponent = some e → e.digits ≠ []

/-- The numeral of a natural number is well formed. -/
theorem Numeral.wellFormed_ofNat (n : ℕ) : (ofNat n).WellFormed where
  whole_ne_nil := digits_ne_nil n
  leading ds h := by
    rcases Nat.eq_zero_or_pos n with rfl | hn
    · simpa [ofNat, digits] using h.symm
    · exact absurd h (digits_ne_zero_cons hn ds)
  exponent := nofun

/-! ### Finite doubles -/

/-- The magnitude of a finite double is below that of an infinity. -/
theorem Binary64.magnitude_lt_of_isFinite {x : Float}
    (h : x.isFinite = true) : Binary64.magnitude x < Binary64.infiniteMagnitude := by
  obtain ⟨-, hl, hu⟩ := Binary64.isFinite_iff.1 h
  have hx : x.toBits.toNat < 0x10000000000000000 := x.toBits.toNat_lt
  unfold Binary64.place Binary64.top at hl hu
  unfold Binary64.magnitude Binary64.infiniteMagnitude
  split at hl <;> omega

namespace NumberStyle

open Decimal

variable (style : NumberStyle) (negative : Bool) {d : Decimal}

/-! ### Numbers without an exponent -/

/-- The digits of a decimal number, with the zeros that hold its place. -/
private theorem ofDigits_padded (d : Decimal) (k : ℕ) :
    ofDigits (List.replicate k 0 ++ (digits d.coefficient ++ List.replicate d.exponent.toNat 0)) =
      d.coefficient * 10 ^ d.exponent.toNat := by
  simp [ofDigits_append, ofDigits_digits]

/-- A decimal number with its digits at their places denotes that number. -/
theorem value_positional (hd : d.IsNormal) : (style.positional negative d).value = d := by
  unfold positional Numeral.value
  dsimp only
  generalize hshown : digits d.coefficient ++ List.replicate d.exponent.toNat 0 = shown
  generalize hplaces : (-d.exponent).toNat = places
  generalize hpadded : List.replicate (places + 1 - shown.length) 0 ++ shown = padded
  have hlength : (padded.drop (padded.length - places)).length = places := by
    have : places + 1 ≤ padded.length := by
      rw [← hpadded, List.length_append, List.length_replicate]
      omega
    rw [List.length_drop]
    omega
  have hvalue : ofDigits padded = d.coefficient * 10 ^ d.exponent.toNat := by
    rw [← hpadded, ← hshown, ofDigits_padded]
  split
  -- a point that is kept has one more zero behind it
  next h =>
    have hempty : padded.drop (padded.length - places) = [] := by simp_all
    have hzero : places = 0 := by
      rw [← hlength, hempty]
      rfl
    rw [hzero, Nat.sub_zero, List.take_length, ofDigits_append, hvalue]
    calc normalize (d.coefficient * 10 ^ d.exponent.toNat * 10 ^ 1 + 0) (0 - 1)
        = normalize (d.coefficient * 10 ^ (d.exponent.toNat + 1))
            (d.exponent - (d.exponent.toNat + 1 : ℕ)) := by
          congr 1
          · ring
          · omega
      _ = d := by rw [normalize_mul_pow, hd.normalize_eq]
  next h =>
    rw [List.take_append_drop, hlength, hvalue]
    calc normalize (d.coefficient * 10 ^ d.exponent.toNat) (0 - places)
        = normalize (d.coefficient * 10 ^ d.exponent.toNat)
            (d.exponent - (d.exponent.toNat : ℕ)) := by
          congr 1
          omega
      _ = d := by rw [normalize_mul_pow, hd.normalize_eq]

/-- Only the digits of zero begin with a zero, and that is their only one. -/
private theorem digits_leading (hd : d.IsNormal) {ds : List Digit}
    (h : digits d.coefficient ++ List.replicate d.exponent.toNat 0 = 0 :: ds) : ds = [] := by
  rcases hd with rfl | hd
  · simpa [zero, digits] using h.symm
  · have hpos : 0 < d.coefficient := by omega
    obtain ⟨c, rest, hc⟩ := List.exists_cons_of_ne_nil (digits_ne_nil d.coefficient)
    rw [hc, List.cons_append] at h
    obtain ⟨rfl, -⟩ := List.cons.inj h
    exact absurd hc (digits_ne_zero_cons hpos rest)

theorem wellFormed_positional (hd : d.IsNormal) : (style.positional negative d).WellFormed := by
  unfold positional
  dsimp only
  generalize hshown : digits d.coefficient ++ List.replicate d.exponent.toNat 0 = shown
  generalize (-d.exponent).toNat = places
  have hlead : ∀ ds, shown = 0 :: ds → ds = [] := fun ds h => digits_leading hd (hshown.trans h)
  constructor
  case whole_ne_nil =>
    intro h
    have hlen := congrArg List.length h
    simp only [List.length_take, List.length_append, List.length_replicate,
      List.length_nil] at hlen
    omega
  case leading =>
    intro ds h
    rcases Nat.lt_or_ge places shown.length with hlong | hshort
    -- enough digits: they begin with a zero only if they are the digits of zero
    · have hpad : places + 1 - shown.length = 0 := by omega
      rw [hpad, List.replicate_zero, List.nil_append] at h
      cases shown with
      | nil => simp at h
      | cons c rest =>
        have hlen : (c :: rest).length - places = rest.length - places + 1 := by
          rw [List.length_cons] at hlong ⊢
          omega
        rw [hlen, List.take_succ_cons] at h
        obtain ⟨rfl, rfl⟩ := List.cons.inj h
        simp [hlead rest rfl]
    -- too few: one zero is put before the point
    · have hlen := congrArg List.length h
      simp only [List.length_take, List.length_append, List.length_replicate,
        List.length_cons] at hlen
      exact List.eq_nil_of_length_eq_zero (by omega)
  case exponent => exact nofun

/-! ### Numbers with an exponent -/

/-- A decimal number with an exponent denotes that number, provided that an exponent which is not
negative has no minus sign. -/
theorem value_scientific (hsign : style.positiveSign ≠ .minus) (hd : d.IsNormal) :
    (style.scientific negative d).value = d := by
  have hscale : WrittenExponent.value
      { sign := if d.width - 1 < 0 then .minus else style.positiveSign
        digits := digits (d.width - 1).natAbs } = d.width - 1 := by
    unfold WrittenExponent.value
    dsimp only
    rw [ofDigits_digits]
    split
    next h =>
      have : d.width - 1 < 0 := by
        by_contra hle
        exact hsign (by rwa [if_neg hle] at h)
      omega
    next h =>
      have : ¬ d.width - 1 < 0 := fun hlt => h (if_pos hlt)
      omega
  unfold scientific Numeral.value
  dsimp only
  rw [hscale, List.take_append_drop, ofDigits_digits, List.length_drop, length_digits]
  have hpos := digitCount_pos d.coefficient
  have hexp : d.width - 1 - (digitCount d.coefficient - 1 : ℕ) = d.exponent := by
    unfold width
    omega
  rw [hexp, hd.normalize_eq]

theorem wellFormed_scientific : (style.scientific negative d).WellFormed := by
  obtain ⟨c, rest, hc⟩ := List.exists_cons_of_ne_nil (digits_ne_nil d.coefficient)
  constructor
  case whole_ne_nil => simp [scientific, hc]
  case leading =>
    intro ds h
    simp_all [scientific]
  case exponent =>
    intro e he
    obtain rfl := Option.some.inj he
    exact digits_ne_nil _

/-! ### Both -/

/-- A decimal number in a style denotes that decimal number. -/
theorem value_decimal (hsign : style.positiveSign ≠ .minus) (hd : d.IsNormal) :
    (style.decimal negative d).value = d := by
  unfold decimal
  split
  · exact style.value_positional negative hd
  · exact style.value_scientific negative hsign hd

theorem wellFormed_decimal (hd : d.IsNormal) : (style.decimal negative d).WellFormed := by
  unfold decimal
  split
  · exact style.wellFormed_positional negative hd
  · exact style.wellFormed_scientific negative

theorem negative_decimal : (style.decimal negative d).negative = negative := by
  unfold decimal
  split <;> rfl

/-- A double in a style is a well-formed numeral. -/
theorem wellFormed_numeral (x : Float) : (style.numeral x).WellFormed :=
  style.wellFormed_decimal _ (isNormal_shortest _ _)

/-- A finite double in a style is read back, with its sign. -/
theorem toFloat?_numeral (hsign : style.positiveSign ≠ .minus) {x : Float}
    (hx : x.isFinite = true) : (style.numeral x).toFloat? = some x := by
  have hm := Binary64.magnitude_lt_of_isFinite hx
  have hvalue : (style.numeral x).value.toMagnitude = Binary64.magnitude x := by
    rw [numeral, style.value_decimal _ hsign (isNormal_shortest _ _), toMagnitude_shortest _ hm]
  have hnegative : (style.numeral x).negative = Binary64.isNegative x := style.negative_decimal _
  rw [Numeral.toFloat?, hvalue, hnegative]
  exact (if_pos hm).trans (congrArg some (Binary64.ofMagnitude_magnitude x))

end NumberStyle

end TrajectoryEvents
