import TrajectoryEvents.Detector.Basic

/-!
# The value of a detector

The value of a composite is the minimum or maximum of its operands' values, and negation changes
the sign. Every operand is evaluated, in order, even once the sign is settled; the first failure is
the answer.
-/

namespace TrajectoryEvents

namespace Detector

variable {ι κ S : Type} [Indicator ι S]

mutual

/-- The value of a detector at a state. -/
def g (d : Detector ι κ) (s : S) : Except EventError Float :=
  match d with
  | .atomic i _ _ => Indicator.g i s
  | .boolean r ds _ _ => do
    match ← values ds s with
    | [] => throw (.emptyOperandSet r)
    | v :: vs => return vs.foldl r.apply v
  | .negate d _ _ => do
    let v ← g d s
    return -v

/-- The values of several detectors at a state, in order. -/
def values (ds : List (Detector ι κ)) (s : S) : Except EventError (List Float) :=
  match ds with
  | [] => return []
  | d :: ds => do
    let v ← g d s
    let vs ← values ds s
    return v :: vs

end

/-- Changing the settings and the handler of a detector leaves its value alone. -/
@[simp]
theorem g_withSettings (d : Detector ι κ) (settings : Settings) (h : Handler κ) (s : S) :
    (d.withSettings settings h).g s = d.g s := by
  cases d <;> simp only [withSettings, g]

/-- What a detector shows of itself to its handler. -/
def view (d : Detector ι κ) : DetectorView S := ⟨d.settings, d.g⟩

@[simp]
theorem view_withSettings (d : Detector ι κ) (settings : Settings) (h : Handler κ) :
    (d.withSettings settings h).view = (⟨settings, d.g⟩ : DetectorView S) := by
  rw [view, settings_withSettings, funext (d.g_withSettings settings h)]

end Detector

end TrajectoryEvents
