/-!
# Reducers

A composite detector reads positive values as true and negative ones as false. The conjunction of
several values is their minimum and the disjunction their maximum; a value that is not a number
makes the result none.
-/

namespace TrajectoryEvents

/-- How the values of several detectors are combined into one. -/
inductive Reducer
  /-- Logical conjunction. -/
  | min
  /-- Logical disjunction. -/
  | max
deriving DecidableEq, Repr

namespace Reducer

/-- Combine an accumulated value with the next one. -/
def apply (r : Reducer) (accumulated value : Float) : Float :=
  if accumulated.isNaN || value.isNaN then 0.0 / 0.0
  else match r with
    | .min => if value < accumulated then value else accumulated
    | .max => if accumulated < value then value else accumulated

/-- The logical operator that a reducer stands for. -/
def operator : Reducer → String
  | .min => "AND"
  | .max => "OR"

/-- The name of a reducer in configuration and inspection texts. -/
def name : Reducer → String
  | .min => "Min"
  | .max => "Max"

instance : ToString Reducer := ⟨operator⟩

end Reducer

end TrajectoryEvents
