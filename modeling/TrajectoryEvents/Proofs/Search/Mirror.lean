import TrajectoryEvents.Proofs.Search.Exactness
import TrajectoryEvents.Proofs.Search.Simulation

/-!
# Negation mirrors a search

The negation of a detector is searched as the detector itself: the same epochs are looked at, the
same events are found, and their directions are turned. Only a NaN could spoil the symmetry, since
it is not positive and neither is its negation.

## Main results

* `Detector.prepared_not`: a search prepares a negation by preparing the detector.
* `Detector.locate_not`: the search of a negation finds the same events, with directions turned.
-/

namespace TrajectoryEvents.Detector

variable {ι κ S τ : Type} [Indicator ι S] [Snapshot S] [CustomHandler κ S τ]
  [Initializable ι S τ]

omit [Snapshot S] [CustomHandler κ S τ] [Initializable ι S τ] in
/-- The value of a negation is the opposite of the value. -/
theorem g_not (d : Detector ι κ) (s : S) : d.not.g s = (d.g s).map fun v => -v := by
  rw [Detector.not, g]
  cases d.g s <;> rfl

section Locate

variable {trajectory : Epoch → StateM τ S} {f : Epoch → S}
  (hf : ∀ t m, (trajectory t m).1 = f t) {start finish : Epoch}
include hf

/-- A search prepares a negation by preparing the detector. -/
theorem prepared_not (d : Detector ι κ) (start finish : Epoch) (m : Memory τ) :
    d.not.prepared trajectory start finish m = (d.prepared trajectory start finish m).not := by
  by_cases h : finish ≤ start
  · rw [prepared_of_le _ h, prepared_of_le _ h]
  · simp only [Detector.not]
    rw [settings_prepared d, prepared_eq _ hf h, prepared_eq _ hf h]
    rfl

/-- The search of a negation mirrors the search of the detector. Along a trajectory that is a
function `f` of the epoch, let a detector with a handler that always continues be searched, and let
no value be a NaN for which the search asks. Then the search of its negation has the same answer,
except that the direction of every event is turned: it fails with the same error, or finds events at
the same epochs and states. -/
theorem locate_not {d : Detector ι κ} (hd : d.handler = .continueOnEvent) {m : Memory τ}
    (hnan : ∀ s v, .value s (.ok v) ∈ d.calls trajectory start finish m → v.isNaN = false) :
    ((d.not.locate trajectory start finish).run m).1.1 =
      ((d.locate trajectory start finish).run m).1.1.map
        (List.map (Occurrence.turned Bool.not)) := by
  by_cases h : finish ≤ start
  · rw [run_locate_of_le _ _ h, run_locate_of_le _ _ h]
    rfl
  have hd' : d.not.handler = .continueOnEvent := rfl
  have hsettings : d.not.settings = d.settings := rfl
  refine locate_simulates hf simulation_neg hd hd' hsettings m ?_
  intro s x hx
  -- the negation answers with the opposite of what the search was told
  obtain ⟨t, rfl, rfl⟩ := (d.searches_locate hf h m).observes _ hx
  rw [d.prepared_not hf, g_not]
  cases hg : (d.prepared trajectory start finish m).g (f t) with
  | error e => exact .error e
  | ok v => exact .ok ⟨hnan (f t) v (hg ▸ hx), rfl⟩

end Locate

/-- The negation of a pulse falls where the pulse rises, and rises where it falls. -/
theorem locate_not_pulse :
    ((raised.not.locate (fun t => (pure (pulse t) : StateM Unit _)) ⟨0.0⟩ ⟨2.0⟩).run
        ⟨.empty, ()⟩).1.1 =
      .ok [⟨⟨0.5⟩, pulse ⟨0.5⟩, false, .proceed, none⟩,
        ⟨⟨2.0⟩, pulse ⟨2.0⟩, true, .proceed, none⟩] := by
  have hf : ∀ t m, ((pure (pulse t) : StateM Unit _) m).1 = pulse t := fun _ _ => rfl
  have hnan : ∀ s v, .value s (.ok v) ∈ raised.calls (fun t => (pure (pulse t) : StateM Unit _))
      ⟨0.0⟩ ⟨2.0⟩ ⟨.empty, ()⟩ → v.isNaN = false := by
    intro s v hv
    obtain ⟨t, rfl, hx⟩ := (raised.searches_locate hf (by decide) ⟨.empty, ()⟩).observes _ hv
    rw [raised.prepared_eq hf (by decide)] at hx
    exact isNaN_threshold_pulse (by decide) (by decide) hx.symm
  rw [locate_not hf rfl hnan, run_locate_pulse]
  rfl

end TrajectoryEvents.Detector
