import TrajectoryEvents.Decimal.Basic

/-!
# Shortest decimal of a double

Among the decimal numbers that read back as a given double, the ones with the fewest digits are the
shortest; of those, the one nearest to the double is chosen. Seventeen digits always suffice. The
choice between two equally near candidates is left to the written style.
-/

namespace TrajectoryEvents

/-- Which of two equally near candidates is written. -/
inductive Tie
  /-- The greater one. -/
  | up
  /-- The one whose last digit is even. -/
  | toEven
deriving DecidableEq, Repr

namespace Decimal

-- Powers of natural numbers are those of the core library, whatever else is imported.
attribute [local instance (2000)] instPowNat

/-- One more than the exponent of the leading digit of `n / d`, for positive `n` and `d`. -/
def quotientWidth (n d : Nat) : Int :=
  let estimate : Int := (digitCount n : Int) - digitCount d
  if d * 10 ^ estimate.toNat ≤ n * 10 ^ (-estimate).toNat then estimate + 1 else estimate

/-- The shortest-digit candidate on the grid of multiples of `10 ^ exponent`: of the two neighbours
of `n / d` on that grid, the ones that read back as `magnitude` qualify, and the nearer one wins. -/
def onGrid? (tie : Tie) (magnitude n d : Nat) (exponent : Int) : Option Decimal :=
  let n := n * 10 ^ (-exponent).toNat
  let d := d * 10 ^ exponent.toNat
  let lower := normalize (n / d) exponent
  let upper := normalize (n / d + 1) exponent
  match decide (lower.toMagnitude = magnitude), decide (upper.toMagnitude = magnitude) with
  | false, false => none
  | true, false => some lower
  | false, true => some upper
  | true, true =>
    if 2 * (n % d) < d then some lower
    else if d < 2 * (n % d) then some upper
    else match tie with
      | .up => some upper
      | .toEven => if (n / d) % 2 = 0 then some lower else some upper

/-- The shortest decimal number that reads back as a finite magnitude, nearest to it among those of
its length. -/
def shortest (tie : Tie) (magnitude : Nat) : Decimal :=
  if magnitude = 0 then zero
  else
    let v := Binary64.valueOf magnitude
    let n := v.significand <<< v.exponent.toNat
    let d := 1 <<< (-v.exponent).toNat
    let width := quotientWidth n d
    match (List.range 17).findSome? fun k => onGrid? tie magnitude n d (width - (k + 1 : Nat)) with
    | some decimal => decimal
    | none => ofDyadic v

/-- A candidate of a grid reads back as the magnitude. -/
theorem toMagnitude_of_onGrid? {tie : Tie} {magnitude n d : Nat} {exponent : Int}
    {decimal : Decimal} (h : onGrid? tie magnitude n d exponent = some decimal) :
    decimal.toMagnitude = magnitude := by
  unfold onGrid? at h
  dsimp only at h
  split at h
  · cases h
  next hl _ =>
    cases h
    exact of_decide_eq_true hl
  next _ hu =>
    cases h
    exact of_decide_eq_true hu
  next hl hu =>
    replace hl := of_decide_eq_true hl
    replace hu := of_decide_eq_true hu
    repeat' split at h
    all_goals
      cases h
      assumption

end Decimal

end TrajectoryEvents
