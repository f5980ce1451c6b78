import TrajectoryEvents.Detector.Basic
import TrajectoryEvents.Inspection

/-!
# Inspecting detectors

The inspection of a detector shows its structure and its settings. Of an indicator only the name is
shown, and handlers are left out.
-/

namespace TrajectoryEvents

/-- Inspections write numbers with a point, and with an exponent outside `10 ^ -4` to `10 ^ 16`. -/
def NumberStyle.inspection : NumberStyle where
  isPositional exponent := -4 ≤ exponent && exponent < 16
  keepsPoint := true
  positiveSign := .bare
  tie := .up

/-- The inspection of settings. -/
def Settings.inspect (s : Settings) : Inspection :=
  .record "DetectorSettings"
    [(Setting.maxCheckInterval.name, .atom (NumberStyle.inspection.text s.maxCheckInterval)),
     (Setting.threshold.name, .atom (NumberStyle.inspection.text s.threshold)),
     (Setting.maxIterationCount.name, .atom (toString s.maxIterationCount))] false

namespace Detector

variable {ι κ S : Type} [Indicator ι S]

mutual

/-- The inspection of a detector. -/
def inspect : Detector ι κ → Inspection
  | .atomic i s _ =>
    .record "AtomicDetector"
      [("indicator", .atom (quoted (Indicator.name i))), ("settings", s.inspect)] true
  | .boolean r ds s _ =>
    .record "BooleanDetector"
      [("reducer", .atom r.name), ("operands", .list (inspectAll ds)), ("settings", s.inspect)] true
  | .negate d s _ =>
    .record "NegateDetector" [("original", inspect d), ("settings", s.inspect)] true

/-- The inspections of several detectors. -/
def inspectAll : List (Detector ι κ) → List Inspection
  | [] => []
  | d :: ds => inspect d :: inspectAll ds

end

end Detector

end TrajectoryEvents
