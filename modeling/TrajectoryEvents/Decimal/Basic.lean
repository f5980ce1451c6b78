import TrajectoryEvents.Binary64.Nearest
import TrajectoryEvents.Decimal.Digits

/-!
# Decimal numbers

A nonnegative decimal number is a coefficient scaled by a power of ten. Its normal form has no
trailing zero in the coefficient, so that equal numbers have equal normal forms. A decimal number is
read as the nearest double.
-/

namespace TrajectoryEvents

/-- The nonnegative number `coefficient · 10 ^ exponent`. -/
structure Decimal where
  coefficient : Nat
  exponent : Int
deriving DecidableEq, Repr

namespace Decimal

-- Powers of natural numbers are those of the core library, whatever else is imported.
attribute [local instance (2000)] instPowNat

/-- The decimal number zero. -/
def zero : Decimal := ⟨0, 0⟩

/-- The same number without trailing zeros in the coefficient. -/
def normalize (coefficient : Nat) (exponent : Int) : Decimal :=
  if coefficient = 0 then zero
  else if coefficient % 10 = 0 then normalize (coefficient / 10) (exponent + 1)
  else ⟨coefficient, exponent⟩

/-- One more than the exponent of the leading digit: a nonzero number lies at or above
`10 ^ (d.width - 1)` and below `10 ^ d.width`. -/
def width (d : Decimal) : Int := digitCount d.coefficient + d.exponent

/-- The magnitude of the double nearest to a decimal number. Numbers far outside the range of
doubles are settled by their width alone. -/
def toMagnitude (d : Decimal) : Nat :=
  if d.coefficient = 0 then 0
  else if 320 < d.width then Binary64.infiniteMagnitude
  else if d.width < -340 then 0
  else Binary64.nearest (d.coefficient * 10 ^ d.exponent.toNat) (10 ^ (-d.exponent).toNat)

/-- The exact value of a magnitude, as a decimal number. -/
def ofDyadic (v : Binary64.Dyadic) : Decimal :=
  if 0 ≤ v.exponent then normalize (v.significand <<< v.exponent.toNat) 0
  else normalize (v.significand * 5 ^ (-v.exponent).toNat) v.exponent

end Decimal

end TrajectoryEvents
