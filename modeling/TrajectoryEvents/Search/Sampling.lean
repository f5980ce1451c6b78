import TrajectoryEvents.Epoch

/-!
# Sampling an interval

A search looks at a detector at sample epochs no further apart than its largest spacing. Where the
spacing is below the resolution of epochs, the next sample is the next representable epoch, so that
sampling always moves forward.

* `nextSample` is the sample after a given one, and `samplesAfter` the list of all later ones.
* `place_lt_place_nextSample`: before the end of the interval, sampling moves forward, whatever the
  spacing and the end are. This is why every search ends.
* `sampling_induction`: what holds once an interval is sampled, and passes from a sample to the one
  before, holds at every epoch.
-/

namespace TrajectoryEvents

/-- The epoch one step after `a`, or the end of the interval if that is no further away. -/
def stepped (step : Float) (finish a : Epoch) : Epoch :=
  if step < finish.durationFrom a then a.shiftedBy step else finish

/-- The sample epoch after `a` in an interval that ends at `finish`. -/
def nextSample (step : Float) (finish a : Epoch) : Epoch :=
  -- A step that is lost in rounding would not move at all.
  if stepped step finish a ≤ a then
    if a.nextRepresentable < finish then a.nextRepresentable else finish
  else stepped step finish a

/-- Before the end of the interval, the next sample stands further on. -/
theorem place_lt_place_nextSample (step : Float) {finish a : Epoch} (h : a < finish) :
    a.place < (nextSample step finish a).place := by
  unfold nextSample
  split
  · split
    · rw [(Epoch.place_nextRepresentable h).2]
      omega
    · exact (Epoch.lt_iff.1 h).2.2
  next hb => exact Epoch.place_lt_of_not_le (Epoch.lt_iff.1 h).1 hb

/-- Before the end of the interval, the next sample leaves fewer epochs to go. -/
theorem remaining_nextSample_lt (step : Float) {finish a : Epoch} (h : a < finish) :
    (nextSample step finish a).remaining finish < a.remaining finish :=
  Epoch.remaining_lt h (place_lt_place_nextSample step h)

/-- The sample epochs after `a` in an interval that ends at `finish`. -/
def samplesAfter (step : Float) (finish a : Epoch) : List Epoch :=
  if _ : a < finish then
    nextSample step finish a :: samplesAfter step finish (nextSample step finish a)
  else []
termination_by a.remaining finish
decreasing_by exact remaining_nextSample_lt step ‹_›

theorem samplesAfter_of_lt (step : Float) {finish a : Epoch} (h : a < finish) :
    samplesAfter step finish a =
      nextSample step finish a :: samplesAfter step finish (nextSample step finish a) := by
  rw [samplesAfter, dif_pos h]

theorem samplesAfter_of_not_lt (step : Float) {finish a : Epoch} (h : ¬ a < finish) :
    samplesAfter step finish a = [] := by
  rw [samplesAfter, dif_neg h]

/-- Induction along the samples of an interval, from its end backwards. -/
theorem sampling_induction (step : Float) (finish : Epoch) {motive : Epoch → Prop}
    (next : ∀ a, a < finish → motive (nextSample step finish a) → motive a)
    (done : ∀ a, ¬ a < finish → motive a) (a : Epoch) : motive a :=
  if h : a < finish then next a h (sampling_induction step finish next done _) else done a h
termination_by a.remaining finish
decreasing_by exact remaining_nextSample_lt step h

end TrajectoryEvents
