import TrajectoryEvents.Handler

/-!
# Probes and bisection

A search samples a trajectory, evaluates a function on the states it gets, and consults a handler
about the events it finds. `Probe` gathers these four questions. Each may have effects on a memory
of type `σ`, so that a probe can also keep an account of what it was asked.

A bracket is a pair of epochs between which the value changes sign. Bisection keeps the half in
which it does, until the bracket is no wider than the threshold, or its ends are neighbours, or the
midpoint is a zero. The later end of the bracket is the event: it lies at or after the sign change.
-/

namespace TrajectoryEvents

/-! ### Questions of a search -/

/-- Computations of a search: effects on a memory, kept even when the search fails. -/
abbrev SearchM (σ : Type) := ExceptT EventError (StateM σ)

/-- What a search asks for. -/
structure Probe (σ S : Type) where
  /-- The state of the trajectory at an epoch. -/
  sample : Epoch → StateM σ S
  /-- The value whose sign changes are sought. -/
  g : S → SearchM σ Float
  /-- The decision about an event at a state; the flag tells whether the value goes up. -/
  consult : S → Bool → StateM σ Action
  /-- The state that replaces the given one. -/
  replace : S → StateM σ S

/-! ### Brackets -/

/-- Two epochs between which a value changes sign. -/
structure Bracket where
  early : Epoch
  /-- The value at the early end. -/
  earlyValue : Float
  late : Epoch
deriving DecidableEq

namespace Bracket

/-- The width of a bracket, in seconds. -/
def width (b : Bracket) : Float := b.late.durationFrom b.early

/-- The midpoint of a bracket, as far as epochs can tell. -/
def midpoint (b : Bracket) : Epoch := b.early.shiftedBy (0.5 * b.width)

/-- Whether no epoch is found strictly inside a bracket. -/
def IsTight (b : Bracket) : Prop := b.midpoint ≤ b.early ∨ b.late ≤ b.midpoint

instance (b : Bracket) : Decidable b.IsTight := inferInstanceAs (Decidable (_ ∨ _))

/-- The half of a bracket that keeps the sign change, given the value at the midpoint. -/
def half (b : Bracket) (value : Float) : Bracket :=
  if decide (0.0 < value) = decide (0.0 < b.earlyValue) then
    { b with early := b.midpoint, earlyValue := value }
  else { b with late := b.midpoint }

end Bracket

/-! ### Bisection -/

namespace Probe

variable {σ S : Type}

/-- The epoch and the state at the late end of a bracket. -/
def lateEnd (p : Probe σ S) (b : Bracket) : SearchM σ (Epoch × S) := do
  let s ← p.sample b.late
  return (b.late, s)

/-- Narrow a bracket down to the threshold with at most the given number of bisections. The
failure names the number that was permitted at first. -/
def bisect (p : Probe σ S) (threshold : Float) (permitted : UInt64) :
    Nat → Bracket → SearchM σ (Epoch × S)
  -- The last bisection is followed by one more look at the width, but not at the midpoint.
  | 0, b => if b.width ≤ threshold then p.lateEnd b else throw (.convergenceFailure permitted)
  | n + 1, b =>
    if b.width ≤ threshold then p.lateEnd b
    else if b.IsTight then p.lateEnd b
    else do
      let s ← p.sample b.midpoint
      let value ← p.g s
      if value == 0.0 then return (b.midpoint, s)
      else bisect p threshold permitted n (b.half value)

/-- Narrow a bracket down to the event in it. -/
def refine (p : Probe σ S) (settings : Settings) (b : Bracket) : SearchM σ (Epoch × S) :=
  p.bisect settings.threshold settings.maxIterationCount settings.maxIterationCount.toNat b

end Probe

end TrajectoryEvents
