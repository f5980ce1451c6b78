import TrajectoryEvents.Epoch
import TrajectoryEvents.Reducer

/-!
# Errors of event detection

Each error names its cause; `EventError.message` gives the wording.
-/

namespace TrajectoryEvents

/-- The search parameters of a detector. -/
inductive Setting
  | maxCheckInterval
  | threshold
  | maxIterationCount
deriving DecidableEq, Repr

/-- The name of a search parameter in configuration and in messages. -/
def Setting.name : Setting → String
  | .maxCheckInterval => "max_check_interval"
  | .threshold => "threshold"
  | .maxIterationCount => "max_iteration_count"

/-- What can go wrong when detectors are composed, evaluated or searched. -/
inductive EventError
  /-- A composite was asked for without any operand. -/
  | emptyOperandSet (reducer : Reducer)
  /-- A search parameter is not positive and finite. -/
  | invalidSetting (setting : Setting) (value : Float)
  /-- An indicator has no value at a state. -/
  | indicator (name reason : String)
  /-- A bracket was still too wide after the permitted number of bisections. -/
  | convergenceFailure (iterations : UInt64)
  /-- A search interval ends at or before its start. -/
  | invalidInterval (start finish : Epoch)
deriving DecidableEq

/-- The wording of an error. -/
def EventError.message : EventError → String
  | .emptyOperandSet reducer => reducer.operator ++ " requires at least one operand"
  | .invalidSetting setting value =>
    "Invalid detector setting " ++ setting.name ++ " = " ++ plainText value ++
      ": must be positive and finite"
  | .indicator name reason => "Indicator " ++ name ++ " failed: " ++ reason
  | .convergenceFailure iterations =>
    "unable to converge after " ++ toString iterations ++ " iterations"
  | .invalidInterval start finish =>
    "Invalid search interval [" ++ start.text ++ ", " ++ finish.text ++ "]"

end TrajectoryEvents
