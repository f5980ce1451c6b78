import TrajectoryEvents.Detector.Basic

/-!
# Preparing a detector for a search

Preparing a detector visits every node once, a node before its operands and the operands from left
to right. At each node the handler is prepared first, and at an atomic node then the indicator,
which may come out changed. Handlers below the root are prepared although they are never told of an
event.
-/

namespace TrajectoryEvents

namespace Detector

variable {ι κ S τ : Type} [Initializable ι S τ] [CustomHandler κ S τ]

mutual

/-- Prepare a detector for a search that starts at a state and heads to an epoch. -/
def init (d : Detector ι κ) (s : S) (target : Epoch) : StateM (Memory τ) (Detector ι κ) :=
  match d with
  | .atomic i settings h => do
    h.init s target
    let i ← Memory.withCustom (Initializable.init i s target)
    return .atomic i settings h
  | .boolean r ds settings h => do
    h.init s target
    let ds ← initAll ds s target
    return .boolean r ds settings h
  | .negate d settings h => do
    h.init s target
    let d ← init d s target
    return .negate d settings h

/-- Prepare several detectors, in order. -/
def initAll (ds : List (Detector ι κ)) (s : S) (target : Epoch) :
    StateM (Memory τ) (List (Detector ι κ)) :=
  match ds with
  | [] => return []
  | d :: ds => do
    let d ← init d s target
    let ds ← initAll ds s target
    return d :: ds

end

/-- Preparing a detector keeps its settings. -/
@[simp]
theorem settings_init (d : Detector ι κ) (s : S) (target : Epoch) (m : Memory τ) :
    ((d.init s target).run m).1.settings = d.settings := by
  cases d <;> rfl

/-- Preparing a detector keeps its handler. -/
@[simp]
theorem handler_init (d : Detector ι κ) (s : S) (target : Epoch) (m : Memory τ) :
    ((d.init s target).run m).1.handler = d.handler := by
  cases d <;> rfl

/-- Preparing a detector does not depend on its settings. -/
theorem run_init_withSettings (d : Detector ι κ) (settings : Settings) (s : S) (target : Epoch)
    (m : Memory τ) :
    ((d.withSettings settings d.handler).init s target).run m =
      (((d.init s target).run m).1.withSettings settings d.handler,
        ((d.init s target).run m).2) := by
  cases d <;> rfl

end Detector

end TrajectoryEvents
