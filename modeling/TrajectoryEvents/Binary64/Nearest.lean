import TrajectoryEvents.Binary64.Fields

/-!
# Rounding to the nearest double

The magnitude of a double, its bit pattern without the sign bit, is a natural number. This module
gives the value that a magnitude stands for and the magnitude nearest to a quotient of natural
numbers, ties going to the even neighbour. Quotients beyond the largest double round to the
magnitude of an infinity.
-/

namespace TrajectoryEvents.Binary64

/-- The magnitude of an infinity: every finite double has a smaller one. -/
def infiniteMagnitude : Nat := 0x7ff0000000000000

/-- The magnitude of a double: its bits without the sign bit. -/
def magnitude (x : Float) : Nat := x.toBits.toNat % 0x8000000000000000

/-- Whether the sign bit of a double is set. -/
def isNegative (x : Float) : Bool := decide (0x8000000000000000 ≤ x.toBits.toNat)

/-- The double with a given sign and magnitude. -/
def ofMagnitude (negative : Bool) (magnitude : Nat) : Float :=
  Float.ofBits (UInt64.ofNat (if negative then 0x8000000000000000 + magnitude else magnitude))

/-- A nonnegative number `significand · 2 ^ exponent`. -/
structure Dyadic where
  significand : Nat
  exponent : Int
deriving DecidableEq, Repr

/-- The value of a finite magnitude. -/
def valueOf (magnitude : Nat) : Dyadic :=
  if magnitude < 0x10000000000000 then ⟨magnitude, -1074⟩
  else
    ⟨0x10000000000000 + magnitude % 0x10000000000000,
      (magnitude / 0x10000000000000 : Nat) - 1075⟩

/-- The quotient `n / d` rounded to the nearest natural number, a half to the even neighbour. -/
def roundDiv (n d : Nat) : Nat :=
  if 2 * (n % d) < d then n / d
  else if d < 2 * (n % d) then n / d + 1
  else n / d + (n / d) % 2

/-- The exponent of the power of two at or below `n / d`, for positive `n` and `d`. -/
def floorLog2 (n d : Nat) : Int :=
  let estimate : Int := (n.log2 : Int) - d.log2
  if d <<< estimate.toNat ≤ n <<< (-estimate).toNat then estimate else estimate - 1

/-- The magnitude of the double nearest to `n / d`, for positive `n` and `d`. The significand is
counted in units of the last place of the binade, or of the smallest double below the binades; a
significand rounded up to the next power of two carries into the exponent field. -/
def nearest (n d : Nat) : Nat :=
  let unit := max (floorLog2 n d - 52) (-1074)
  let significand := roundDiv (n <<< (-unit).toNat) (d <<< unit.toNat)
  min ((unit + 1074).toNat * 0x10000000000000 + significand) infiniteMagnitude

theorem ofMagnitude_magnitude (x : Float) : ofMagnitude (isNegative x) (magnitude x) = x := by
  have hx : x.toBits.toNat < 0x10000000000000000 := x.toBits.toNat_lt
  have h : (if isNegative x then 0x8000000000000000 + magnitude x else magnitude x) =
      x.toBits.toNat := by
    unfold isNegative magnitude
    split
    next h =>
      rw [decide_eq_true_iff] at h
      omega
    next h =>
      rw [decide_eq_true_iff] at h
      omega
  rw [ofMagnitude, h, UInt64.ofNat_toNat]
  exact ofBits_toBits x

end TrajectoryEvents.Binary64
