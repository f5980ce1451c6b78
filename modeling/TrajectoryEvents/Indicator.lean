import TrajectoryEvents.Error
import TrajectoryEvents.State

/-!
# Indicators

An indicator is the physical or geometric part of a detector: a signed function of the state whose
sign tells whether a condition holds. Physical models plug in here as instances of `Indicator`, and
of `Initializable` if they keep something from the start of a search.

Three kinds are given: thresholds of a state component and of the distance from the origin, and
functions with a name. The disjoint sum of two kinds is a kind again, so that one detector can
combine indicators of several kinds.
-/

namespace TrajectoryEvents

/-- Signed scalar functions of a state. -/
class Indicator (ι : Type) (S : outParam Type) where
  /-- The name used in reports. -/
  name : ι → String
  /-- The value at a state, positive where the condition holds. -/
  g : ι → S → Except EventError Float

/-- Things that prepare themselves at the start of a search, possibly taking note of it in a memory
of type `τ`. -/
class Initializable (ι S τ : Type) where
  /-- Prepare for a search that starts at a state and heads to an epoch. -/
  init : ι → S → Epoch → StateM τ ι

/-! ### Functions -/

/-- A function of the state with a name. -/
structure FnIndicator (S : Type) where
  name : String
  function : S → Except EventError Float

variable {S τ : Type}

instance : Indicator (FnIndicator S) S where
  name i := i.name
  g i s := i.function s

instance : Initializable (FnIndicator S) S τ := ⟨fun i _ _ => pure i⟩

/-! ### Thresholds -/

/-- Positive while a state component lies above a level. -/
structure ComponentThreshold where
  index : UInt64
  level : Float
deriving DecidableEq

namespace ComponentThreshold

/-- The name of a component threshold, such as `y[0] > 2.5`. -/
def name (i : ComponentThreshold) : String :=
  "y[" ++ toString i.index ++ "] > " ++ plainText i.level

/-- How far the component lies above the level. -/
def g (i : ComponentThreshold) (s : TrajectoryState) : Except EventError Float :=
  match s.component? i.index.toNat with
  | some value => .ok (value - i.level)
  | none =>
    .error (.indicator i.name ("state has " ++ toString s.components.length ++ " components"))

instance : Indicator ComponentThreshold TrajectoryState := ⟨name, g⟩

instance : Initializable ComponentThreshold S τ := ⟨fun i _ _ => pure i⟩

end ComponentThreshold

/-- Positive while the position lies outside a sphere around the origin. -/
structure RadiusThreshold where
  radius : Float
deriving DecidableEq

namespace RadiusThreshold

/-- The name of a radius threshold, such as `|r| > 6378`. -/
def name (i : RadiusThreshold) : String := "|r| > " ++ plainText i.radius

/-- How far the position lies outside the sphere. -/
def g (i : RadiusThreshold) (s : TrajectoryState) : Except EventError Float :=
  match s.position? with
  | some r => .ok (r.norm - i.radius)
  | none => .error (.indicator i.name "state has no position")

instance : Indicator RadiusThreshold TrajectoryState := ⟨name, g⟩

instance : Initializable RadiusThreshold S τ := ⟨fun i _ _ => pure i⟩

end RadiusThreshold

/-! ### Sums -/

variable {ι₁ ι₂ : Type}

instance [Indicator ι₁ S] [Indicator ι₂ S] : Indicator (ι₁ ⊕ ι₂) S where
  name
    | .inl i => Indicator.name i
    | .inr i => Indicator.name i
  g
    | .inl i => Indicator.g i
    | .inr i => Indicator.g i

instance [Initializable ι₁ S τ] [Initializable ι₂ S τ] : Initializable (ι₁ ⊕ ι₂) S τ where
  init
    | .inl i, s, target => .inl <$> Initializable.init i s target
    | .inr i, s, target => .inr <$> Initializable.init i s target

end TrajectoryEvents
