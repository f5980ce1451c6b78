import TrajectoryEvents.Handler

/-!
# Detectors

A detector is a signed function of the state together with the settings and the handler that a
search for its sign changes needs. Atomic detectors wrap one indicator; conjunction, disjunction and
negation build new detectors from given ones. Composites bring settings and a handler of their own,
so a search cannot tell them from atomic detectors.

* `Detector.compose`: a composite starts with the most stringent settings of its operands and a
  handler that always continues; the handlers of the operands are not used.
* `Detector.withSettings` and its variants change how a detector is searched, never what it
  computes.
* `Rebuild` lists the ways to replace the settings and the handler of a detector, and
  `Detector.rebuildAll` applies several in order, up to the first that is refused.
-/

namespace TrajectoryEvents

/-- Any detector that can be built from indicators of type `ι`, with custom handlers of type `κ`. -/
inductive Detector (ι κ : Type)
  /-- A single indicator. -/
  | atomic (indicator : ι) (settings : Settings) (handler : Handler κ)
  /-- The conjunction or disjunction of several detectors, in order of evaluation. -/
  | boolean (reducer : Reducer) (operands : List (Detector ι κ)) (settings : Settings)
      (handler : Handler κ)
  /-- The negation of a detector. -/
  | negate (original : Detector ι κ) (settings : Settings) (handler : Handler κ)

namespace Detector

variable {ι κ : Type}

/-- Induction over detectors, with the hypothesis for every operand of a composite. -/
@[elab_as_elim, induction_eliminator]
theorem induction {motive : Detector ι κ → Prop}
    (atomic : ∀ indicator settings handler, motive (.atomic indicator settings handler))
    (boolean : ∀ reducer operands settings handler, (∀ d ∈ operands, motive d) →
      motive (.boolean reducer operands settings handler))
    (negate : ∀ original settings handler, motive original →
      motive (.negate original settings handler))
    (d : Detector ι κ) : motive d :=
  @Detector.rec ι κ motive (fun operands => ∀ d ∈ operands, motive d) atomic boolean negate
    (fun _ h => nomatch h)
    (fun _ _ hd hrest _ h => by
      rcases List.mem_cons.1 h with rfl | h
      · exact hd
      · exact hrest _ h)
    d

/-! ### Settings and handler -/

/-- The settings of a detector. -/
def settings : Detector ι κ → Settings
  | .atomic _ s _ => s
  | .boolean _ _ s _ => s
  | .negate _ s _ => s

/-- The handler of a detector's events. -/
def handler : Detector ι κ → Handler κ
  | .atomic _ _ h => h
  | .boolean _ _ _ h => h
  | .negate _ _ h => h

/-- The same detector with other settings, taken as they are, and another handler. -/
def withSettings (d : Detector ι κ) (s : Settings) (h : Handler κ) : Detector ι κ :=
  match d with
  | .atomic i _ _ => .atomic i s h
  | .boolean r ds _ _ => .boolean r ds s h
  | .negate d _ _ => .negate d s h

/-- The same detector with another handler. -/
def withHandler (d : Detector ι κ) (h : Handler κ) : Detector ι κ := d.withSettings d.settings h

/-- The same detector with a different largest spacing between samples. -/
def withMaxCheckInterval (d : Detector ι κ) (duration : Float) :
    Except EventError (Detector ι κ) := do
  let s ← d.settings.withMaxCheckInterval duration
  return d.withSettings s d.handler

/-- The same detector with a different threshold. -/
def withThreshold (d : Detector ι κ) (duration : Float) : Except EventError (Detector ι κ) := do
  let s ← d.settings.withThreshold duration
  return d.withSettings s d.handler

/-- The same detector with a different bound on the bisections. -/
def withMaxIterationCount (d : Detector ι κ) (count : UInt64) :
    Except EventError (Detector ι κ) := do
  let s ← d.settings.withMaxIterationCount count
  return d.withSettings s d.handler

@[simp]
theorem settings_withSettings (d : Detector ι κ) (s : Settings) (h : Handler κ) :
    (d.withSettings s h).settings = s := by
  cases d <;> rfl

@[simp]
theorem handler_withSettings (d : Detector ι κ) (s : Settings) (h : Handler κ) :
    (d.withSettings s h).handler = h := by
  cases d <;> rfl

/-- Valid settings go with any usable spacing of samples. -/
theorem withMaxCheckInterval_eq {d : Detector ι κ} (hv : d.settings.Valid) {duration : Float}
    (h : Settings.IsUsable duration) :
    d.withMaxCheckInterval duration =
      .ok (d.withSettings { d.settings with maxCheckInterval := duration } d.handler) := by
  have hvalid : ({ d.settings with maxCheckInterval := duration } : Settings).Valid :=
    ⟨h, hv.threshold, hv.maxIterationCount⟩
  rw [withMaxCheckInterval, Settings.withMaxCheckInterval,
    Settings.validate_eq_ok_iff.2 ⟨hvalid, rfl⟩]
  rfl

/-- Valid settings go with any usable threshold. -/
theorem withThreshold_eq {d : Detector ι κ} (hv : d.settings.Valid) {duration : Float}
    (h : Settings.IsUsable duration) :
    d.withThreshold duration =
      .ok (d.withSettings { d.settings with threshold := duration } d.handler) := by
  have hvalid : ({ d.settings with threshold := duration } : Settings).Valid :=
    ⟨hv.maxCheckInterval, h, hv.maxIterationCount⟩
  rw [withThreshold, Settings.withThreshold, Settings.validate_eq_ok_iff.2 ⟨hvalid, rfl⟩]
  rfl

/-- Valid settings go with any positive number of bisections. -/
theorem withMaxIterationCount_eq {d : Detector ι κ} (hv : d.settings.Valid) {count : UInt64}
    (h : 0 < count) :
    d.withMaxIterationCount count =
      .ok (d.withSettings { d.settings with maxIterationCount := count } d.handler) := by
  have hvalid : ({ d.settings with maxIterationCount := count } : Settings).Valid :=
    ⟨hv.maxCheckInterval, hv.threshold, h⟩
  rw [withMaxIterationCount, Settings.withMaxIterationCount,
    Settings.validate_eq_ok_iff.2 ⟨hvalid, rfl⟩]
  rfl

/-! ### Composition -/

/-- A detector with a single indicator, the standard settings, and a handler that always
continues. -/
def ofIndicator (indicator : ι) : Detector ι κ := .atomic indicator .standard .continueOnEvent

/-- A detector for a function of the state. -/
def ofFn {S : Type} (name : String) (function : S → Except EventError Float) :
    Detector (FnIndicator S) κ :=
  ofIndicator ⟨name, function⟩

/-- The composite of several detectors. There is none of an empty list. -/
def compose (reducer : Reducer) (operands : List (Detector ι κ)) :
    Except EventError (Detector ι κ) :=
  match Settings.mostStringent (operands.map settings) with
  | some s => .ok (.boolean reducer operands s .continueOnEvent)
  | none => .error (.emptyOperandSet reducer)

/-- Logical conjunction: positive exactly where every operand is. -/
def all (operands : List (Detector ι κ)) : Except EventError (Detector ι κ) :=
  compose .min operands

/-- Logical disjunction: positive exactly where some operand is. -/
def any (operands : List (Detector ι κ)) : Except EventError (Detector ι κ) :=
  compose .max operands

/-- Logical negation: the same magnitude with the opposite sign. It keeps the settings, and its
handler always continues. -/
def not (d : Detector ι κ) : Detector ι κ := .negate d d.settings .continueOnEvent

end Detector

/-! ### Rebuilding -/

/-- A replacement of settings or handler. -/
inductive Rebuild (κ : Type)
  /-- Take the given settings as they are, and the given handler. -/
  | settings (settings : Settings) (handler : Handler κ)
  | handler (handler : Handler κ)
  | maxCheckInterval (duration : Float)
  | threshold (duration : Float)
  | maxIterationCount (count : UInt64)
deriving DecidableEq

namespace Detector

variable {ι κ : Type}

/-- Apply one replacement. -/
def rebuild (d : Detector ι κ) : Rebuild κ → Except EventError (Detector ι κ)
  | .settings s h => .ok (d.withSettings s h)
  | .handler h => .ok (d.withHandler h)
  | .maxCheckInterval duration => d.withMaxCheckInterval duration
  | .threshold duration => d.withThreshold duration
  | .maxIterationCount count => d.withMaxIterationCount count

/-- Apply several replacements, in order. -/
def rebuildAll (d : Detector ι κ) (calls : List (Rebuild κ)) : Except EventError (Detector ι κ) :=
  calls.foldlM rebuild d

end Detector

end TrajectoryEvents
