import TrajectoryEvents.Scenario.Journal

/-!
# Trajectories and instruments

A list of curves, one for each component, makes a trajectory. Curves are functions of time in closed
form.

Instruments are simple indicators for the states of such a trajectory: constants, linear functions
of a component, clocks, indicators that fail, and one that counts from a point of the search
interval which it learns at the start of each search.
-/

namespace TrajectoryEvents

/-! ### Curves -/

/-- A function of time. -/
inductive Curve
  /-- A polynomial, by its coefficients from the constant one upwards. -/
  | polynomial (coefficients : List Float)
  /-- A triangle wave around an offset, starting at its upper peak. -/
  | triangle (period amplitude offset : Float)
  /-- A step function: a first value, and the values that replace it from some times on. -/
  | steps (before : Float) (changes : List (Float × Float))
deriving DecidableEq

namespace Curve

/-- The value of a curve at a time. Polynomials are evaluated from the highest coefficient down. -/
def value (curve : Curve) (t : Float) : Float :=
  match curve with
  | .polynomial coefficients => coefficients.foldr (fun c acc => acc * t + c) 0.0
  | .triangle period amplitude offset =>
    let u := t / period
    let f := u - u.floor
    amplitude * (4.0 * (f - 0.5).abs - 1.0) + offset
  | .steps before changes =>
    changes.foldl (fun value (start, next) => if start ≤ t then next else value) before

/-- The state at an epoch of the trajectory that the given curves make. -/
def trajectory (curves : List Curve) (t : Epoch) : TrajectoryState :=
  ⟨t, curves.map (·.value t.seconds)⟩

end Curve

/-! ### Instruments -/

namespace FnIndicator

/-- The same value at every state. -/
def constant (name : String) (value : Float) : FnIndicator TrajectoryState :=
  ⟨name, fun _ => .ok value⟩

/-- A linear function of one component. -/
def linear (name : String) (index : Nat) (slope offset : Float) : FnIndicator TrajectoryState :=
  ⟨name, fun s =>
    match s.component? index with
    | some y => .ok (slope * y + offset)
    | none => .error (.indicator name "missing component")⟩

/-- The time since an epoch. -/
def clock (name : String) (origin : Epoch) : FnIndicator TrajectoryState :=
  ⟨name, fun s => .ok (s.epoch.durationFrom origin)⟩

/-- No value at any state. -/
def failing (name reason : String) : FnIndicator TrajectoryState :=
  ⟨name, fun _ => .error (.indicator name reason)⟩

/-- The same value up to an epoch, and none later. -/
def failingAfter (name : String) (last : Epoch) (value : Float) : FnIndicator TrajectoryState :=
  ⟨name, fun s =>
    if last < s.epoch then .error (.indicator name ("no data at " ++ s.epoch.text))
    else .ok value⟩

end FnIndicator

/-- The time since a point of the search interval, given as a fraction of the way from its start to
its target. -/
structure SinceInit where
  name : String
  fraction : Float
  /-- The point, once a search has started. -/
  root : Option Epoch
deriving DecidableEq

namespace SinceInit

instance : Indicator SinceInit TrajectoryState where
  name i := i.name
  g i s :=
    match i.root with
    | some root => .ok (s.epoch.durationFrom root)
    | none => .error (.indicator i.name "not initialized")

instance : Initializable SinceInit TrajectoryState Journal where
  init i s target := do
    Journal.note (.indicatorInit i.name s.epoch target)
    return { i with root := some (s.epoch.shiftedBy (i.fraction * target.durationFrom s.epoch)) }

end SinceInit

/-- Any indicator of a scenario. -/
abbrev Instrument :=
  ComponentThreshold ⊕ RadiusThreshold ⊕ FnIndicator TrajectoryState ⊕ SinceInit

namespace Instrument

/-- A component threshold as an instrument. -/
def component (index : UInt64) (level : Float) : Instrument := .inl ⟨index, level⟩

/-- A radius threshold as an instrument. -/
def radius (radius : Float) : Instrument := .inr (.inl ⟨radius⟩)

/-- A function as an instrument. -/
def function (f : FnIndicator TrajectoryState) : Instrument := .inr (.inr (.inl f))

/-- An instrument that counts from a point of the search interval. -/
def sinceInit (name : String) (fraction : Float) : Instrument :=
  .inr (.inr (.inr ⟨name, fraction, none⟩))

end Instrument

end TrajectoryEvents
