import TrajectoryEvents.Binary64.Line
import TrajectoryEvents.Decimal.Numeral
import TrajectoryEvents.Decimal.Shortest

/-!
# Styles of writing doubles

All styles write the shortest digits that read back. They differ in when an exponent is written,
in whether whole numbers keep a zero after the point, and in the sign of a positive exponent.
-/

namespace TrajectoryEvents

/-- How doubles are written. -/
structure NumberStyle where
  /-- Whether a number whose leading digit has the given exponent is written without an exponent. -/
  isPositional : Int → Bool
  /-- Whether a whole number without an exponent keeps a zero after the point. -/
  keepsPoint : Bool
  /-- The sign in front of an exponent that is not negative. -/
  positiveSign : ExponentSign
  /-- Which of two equally near candidates is written. -/
  tie : Tie

namespace NumberStyle

/-- Digits at their places, with zeros up to the decimal point. -/
def positional (style : NumberStyle) (negative : Bool) (d : Decimal) : Numeral :=
  let places := (-d.exponent).toNat
  let shown := digits d.coefficient ++ List.replicate d.exponent.toNat 0
  let padded := List.replicate (places + 1 - shown.length) 0 ++ shown
  let fraction := padded.drop (padded.length - places)
  { negative
    whole := padded.take (padded.length - places)
    fraction := if fraction.isEmpty && style.keepsPoint then [0] else fraction
    exponent := none }

/-- One digit before the decimal point and an exponent. -/
def scientific (style : NumberStyle) (negative : Bool) (d : Decimal) : Numeral :=
  let shown := digits d.coefficient
  let exponent := d.width - 1
  { negative
    whole := shown.take 1
    fraction := shown.drop 1
    exponent := some
      { sign := if exponent < 0 then .minus else style.positiveSign
        digits := digits exponent.natAbs } }

/-- A decimal number in a style. -/
def decimal (style : NumberStyle) (negative : Bool) (d : Decimal) : Numeral :=
  if d.coefficient = 0 || style.isPositional (d.width - 1) then style.positional negative d
  else style.scientific negative d

/-- A finite double in a style. -/
def numeral (style : NumberStyle) (x : Float) : Numeral :=
  style.decimal (Binary64.isNegative x) (Decimal.shortest style.tie (Binary64.magnitude x))

/-- A double as text, NaN and the infinities by name. -/
def text (style : NumberStyle) (x : Float) : String :=
  if x.isNaN then "NaN"
  else if x == Binary64.infinity then "inf"
  else if x == -Binary64.infinity then "-inf"
  else (style.numeral x).text

/-- The style of messages and names: never an exponent, and whole numbers without a point. -/
def plain : NumberStyle where
  isPositional _ := true
  keepsPoint := false
  positiveSign := .bare
  tie := .up

end NumberStyle

/-- A double as messages and names show it. -/
def plainText (x : Float) : String := NumberStyle.plain.text x

end TrajectoryEvents
