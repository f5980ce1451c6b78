import TrajectoryEvents.Epoch

/-!
# Trajectory states

A state is a snapshot of the simulated trajectory. The search needs no more of it than its epoch;
`TrajectoryState`, the general-purpose state, has a flat vector of components besides.
-/

namespace TrajectoryEvents

/-- The snapshots of a trajectory: all that a search knows of one is its epoch. -/
class Snapshot (S : Type) where
  /-- The epoch at which the snapshot was taken. -/
  epoch : S → Epoch

/-- A point in space. -/
structure Position where
  x : Float
  y : Float
  z : Float
deriving DecidableEq

/-- The distance of a point from the origin. -/
def Position.norm (p : Position) : Float := (p.x * p.x + p.y * p.y + p.z * p.z).sqrt

/-- An epoch and a flat state vector. Of an orbital state the first three components are the
position and the next three the velocity. -/
structure TrajectoryState where
  epoch : Epoch
  components : List Float
deriving DecidableEq

namespace TrajectoryState

instance : Snapshot TrajectoryState := ⟨epoch⟩

/-- A component of the state vector, if it is present. -/
def component? (s : TrajectoryState) (index : Nat) : Option Float := s.components[index]?

/-- The position, if the state vector is long enough to have one. -/
def position? (s : TrajectoryState) : Option Position :=
  match s.components with
  | x :: y :: z :: _ => some ⟨x, y, z⟩
  | _ => none

end TrajectoryState

end TrajectoryEvents
