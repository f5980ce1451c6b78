import TrajectoryEvents.Decimal.Basic

/-!
# Written numerals

A numeral is a number as it is written: a sign, the digits before and after the decimal point, and
possibly an exponent. `Numeral.text` writes it, `Numeral.value` says which number it denotes, and
`Numeral.toFloat?` reads it as the nearest double.
-/

namespace TrajectoryEvents

/-- The sign in front of a written exponent. -/
inductive ExponentSign
  | bare
  | plus
  | minus
deriving DecidableEq, Repr

/-- The exponent of a numeral. -/
structure WrittenExponent where
  sign : ExponentSign
  digits : List Digit
deriving DecidableEq, Repr

/-- A number as it is written. -/
structure Numeral where
  /-- Whether a minus sign stands in front. -/
  negative : Bool
  /-- The digits before the decimal point. -/
  whole : List Digit
  /-- The digits after the decimal point; without any, there is no point. -/
  fraction : List Digit
  /-- The exponent, if one is written. -/
  exponent : Option WrittenExponent
deriving DecidableEq, Repr

namespace WrittenExponent

/-- The exponent that is written. -/
def value (e : WrittenExponent) : Int :=
  match e.sign with
  | .minus => -(ofDigits e.digits : Int)
  | _ => ofDigits e.digits

/-- The characters of an exponent. -/
def chars (e : WrittenExponent) : List Char :=
  'e' :: (match e.sign with
    | .bare => []
    | .plus => ['+']
    | .minus => ['-']) ++ e.digits.map Digit.char

end WrittenExponent

namespace Numeral

/-- The characters of a numeral. -/
def chars (n : Numeral) : List Char :=
  (if n.negative then ['-'] else []) ++ n.whole.map Digit.char ++
    (if n.fraction.isEmpty then [] else '.' :: n.fraction.map Digit.char) ++
    (match n.exponent with
      | none => []
      | some e => e.chars)

/-- A numeral as text. -/
def text (n : Numeral) : String := String.ofList n.chars

/-- The absolute value of the number that a numeral denotes. -/
def value (n : Numeral) : Decimal :=
  let scale := match n.exponent with
    | none => 0
    | some e => e.value
  Decimal.normalize (ofDigits (n.whole ++ n.fraction)) (scale - n.fraction.length)

/-- The double nearest to a numeral, with the sign that is written; `none` if it is beyond the
largest double. -/
def toFloat? (n : Numeral) : Option Float :=
  let magnitude := n.value.toMagnitude
  if magnitude < Binary64.infiniteMagnitude then some (Binary64.ofMagnitude n.negative magnitude)
  else none

/-- The natural number that a numeral denotes if it is written as one: digits only. -/
def toNat? (n : Numeral) : Option Nat :=
  if n.negative || !n.fraction.isEmpty || n.exponent.isSome then none else some (ofDigits n.whole)

/-- The numeral of a natural number. -/
def ofNat (n : Nat) : Numeral := ⟨false, digits n, [], none⟩

theorem toNat?_ofNat (n : Nat) : (ofNat n).toNat? = some n := by
  simp [toNat?, ofNat, ofDigits_digits]

end Numeral

end TrajectoryEvents
