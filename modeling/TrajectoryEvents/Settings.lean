import TrajectoryEvents.Error

/-!
# Search settings

Three parameters steer the search of a detector: the largest spacing between two samples, the width
to which a bracket is narrowed, and a bound on the bisections spent on one bracket. All three have
to be positive, and the two durations finite.

* `Settings.validate_eq_ok_iff`: validation accepts exactly the valid settings, unchanged.
* `Settings.mostStringent`: the elementwise minimum that a composite detector searches with.
-/

namespace TrajectoryEvents

/-- Parameters of an event search. -/
structure Settings where
  /-- The largest spacing between two samples, in seconds. -/
  maxCheckInterval : Float
  /-- The width to which a bracket is narrowed, in seconds. -/
  threshold : Float
  /-- The number of bisections permitted in one bracket. -/
  maxIterationCount : UInt64
deriving DecidableEq

namespace Settings

/-- The settings of a detector for which none are given. -/
def standard : Settings := ⟨600.0, 1e-6, 100⟩

instance : Inhabited Settings := ⟨standard⟩

/-- A duration that can steer a search. -/
def IsUsable (duration : Float) : Prop := duration.isFinite = true ∧ 0.0 < duration

instance (duration : Float) : Decidable (IsUsable duration) :=
  inferInstanceAs (Decidable (_ ∧ _))

/-- Settings that can steer a search. -/
structure Valid (s : Settings) : Prop where
  maxCheckInterval : IsUsable s.maxCheckInterval
  threshold : IsUsable s.threshold
  maxIterationCount : 0 < s.maxIterationCount

/-- Accept valid settings; otherwise report the first offending parameter with its value. -/
def validate (s : Settings) : Except EventError Settings :=
  if ¬ IsUsable s.maxCheckInterval then
    .error (.invalidSetting .maxCheckInterval s.maxCheckInterval)
  else if ¬ IsUsable s.threshold then .error (.invalidSetting .threshold s.threshold)
  else if s.maxIterationCount = 0 then .error (.invalidSetting .maxIterationCount 0.0)
  else .ok s

/-- Settings with a different largest spacing. -/
def withMaxCheckInterval (s : Settings) (duration : Float) : Except EventError Settings :=
  { s with maxCheckInterval := duration }.validate

/-- Settings with a different threshold. -/
def withThreshold (s : Settings) (duration : Float) : Except EventError Settings :=
  { s with threshold := duration }.validate

/-- Settings with a different bound on the bisections. -/
def withMaxIterationCount (s : Settings) (count : UInt64) : Except EventError Settings :=
  { s with maxIterationCount := count }.validate

/-- The lesser of two durations. -/
def lesser (a b : Float) : Float := if b < a then b else a

/-- The elementwise minimum of two settings. -/
def meet (a b : Settings) : Settings where
  maxCheckInterval := lesser a.maxCheckInterval b.maxCheckInterval
  threshold := lesser a.threshold b.threshold
  maxIterationCount := min a.maxIterationCount b.maxIterationCount

/-- The elementwise minimum of several settings: a composite searches at least as carefully as its
most demanding operand. There is none for an empty list. -/
def mostStringent : List Settings → Option Settings
  | [] => none
  | s :: rest => some (rest.foldl meet s)

/-- Validation accepts exactly the valid settings, and returns them unchanged. -/
theorem validate_eq_ok_iff {s t : Settings} : s.validate = .ok t ↔ s.Valid ∧ s = t := by
  unfold validate
  split
  next h => exact ⟨nofun, fun hv => absurd hv.1.maxCheckInterval h⟩
  next h =>
    split
    next h' => exact ⟨nofun, fun hv => absurd hv.1.threshold h'⟩
    next h' =>
      split
      next h'' =>
        refine ⟨nofun, fun hv => ?_⟩
        have := hv.1.maxIterationCount
        rw [h''] at this
        exact absurd this (by decide)
      next h'' =>
        rw [Except.ok.injEq]
        refine ⟨fun he => ⟨⟨Decidable.not_not.1 h, Decidable.not_not.1 h', ?_⟩, he⟩, And.right⟩
        exact UInt64.pos_iff_ne_zero.2 h''

instance (s : Settings) : Decidable s.Valid :=
  decidable_of_iff
    (IsUsable s.maxCheckInterval ∧ IsUsable s.threshold ∧ 0 < s.maxIterationCount)
    ⟨fun h => ⟨h.1, h.2.1, h.2.2⟩, fun h => ⟨h.1, h.2, h.3⟩⟩

theorem valid_standard : standard.Valid := by decide

end Settings

end TrajectoryEvents
