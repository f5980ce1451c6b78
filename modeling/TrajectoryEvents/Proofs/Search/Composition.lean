import TrajectoryEvents.Proofs.Search.Alternation
import TrajectoryEvents.Proofs.Search.Convergence
import TrajectoryEvents.Proofs.Settings.Meet

/-!
# Convergence of composites

A composite combines the smallest threshold of its operands with the smallest number of bisections,
which may come from different operands, and it is not zero wherever an operand is. That every
operand can be searched alone is therefore not enough for the composite: what counts is whether the
smallest number of bisections is enough for the smallest threshold.

## Main results

* `Detector.suffices_compose`: when the settings of a composite permit enough bisections.
* `Detector.compose_exists_value`: the search of such a composite fails only with the error of a
  value.
* `Detector.compose_convergenceFailure`: operands that can be searched, with composites that cannot.
-/

namespace TrajectoryEvents

namespace Detector

open Binary64

variable {ι κ S τ : Type}

/-- The settings of a composite permit enough bisections, if every operand permits enough of them
for the smallest spacing and the smallest threshold. -/
theorem suffices_compose {ds : List (Detector ι κ)} {s : Settings} {L : ℕ}
    (hmin : Settings.IsElementwiseMin (ds.map settings) s)
    (hspacing : ∃ d₀ ∈ ds, ∀ d ∈ ds, value (place d₀.settings.maxCheckInterval) ≤
      value (place d.settings.threshold) * 2 ^ L)
    (hcount : ∀ d ∈ ds, 2 * L + 16 ≤ d.settings.maxIterationCount.toNat) : s.Suffices L := by
  obtain ⟨d₀, hd₀, hspacing⟩ := hspacing
  obtain ⟨_, ht, hthreshold⟩ := hmin.threshold.1
  obtain ⟨d₁, hd₁, rfl⟩ := List.mem_map.1 ht
  obtain ⟨_, hn, hiterations⟩ := hmin.maxIterationCount.1
  obtain ⟨d₂, hd₂, rfl⟩ := List.mem_map.1 hn
  have hle : s.maxCheckInterval ≤ d₀.settings.maxCheckInterval :=
    hmin.maxCheckInterval.2 ⟨_, List.mem_map_of_mem hd₀, rfl⟩
  constructor
  · rw [← hthreshold]
    exact (value_le_value.2 (Binary64.le_iff.1 hle).2.2).trans (hspacing d₁ hd₁)
  · rw [← hiterations]
    exact hcount d₂ hd₂

variable [Indicator ι S] [Snapshot S] [CustomHandler κ S τ] [Initializable ι S τ]

/-- Composition introduces no failure to converge, as long as its operands permit enough bisections.
Let the settings of at least one detector be valid, and let `2 ^ L` times every threshold reach the
spacing of some operand. If every operand permits `2 * L + 16` bisections, then the search of their
conjunction or disjunction in a finite interval fails only with an error that a value gave, whatever
the trajectory is. -/
theorem compose_exists_value (r : Reducer) {ds : List (Detector ι κ)}
    (hv : ∀ d ∈ ds, d.settings.Valid) {L : ℕ}
    (hspacing : ∃ d₀ ∈ ds, ∀ d ∈ ds, value (place d₀.settings.maxCheckInterval) ≤
      value (place d.settings.threshold) * 2 ^ L)
    (hcount : ∀ d ∈ ds, 2 * L + 16 ≤ d.settings.maxIterationCount.toNat)
    (trajectory : Epoch → StateM τ S) {start finish : Epoch} (hs : start.IsFinite)
    (hf : finish.IsFinite) (h : start < finish) (m : Memory τ) :
    ∃ d, compose r ds = .ok d ∧
      ∀ e, ((d.locate trajectory start finish).run m).1.1 = .error e →
        ∃ s, .value s (.error e) ∈ d.calls trajectory start finish m := by
  have hne : ds ≠ [] := hspacing.elim fun _ hd => List.ne_nil_of_mem hd.1
  obtain ⟨d, hd, hmin⟩ := exists_compose_eq r hne hv
  have hvd : d.settings.Valid := hmin.valid (by simpa using hv)
  have hL := suffices_compose hmin hspacing hcount
  exact ⟨d, hd, fun e he => exists_value_of_suffices hvd hL trajectory hs hf h he⟩

/-! ### Thresholds along functions of time -/

/-- What a search for the events of a detector of thresholds answers along a function of time. -/
def answer (d : Detector ComponentThreshold Empty) (f : Epoch → TrajectoryState)
    (start finish : Epoch) : Except EventError (List (Occurrence TrajectoryState)) :=
  ((d.locate (fun t => (pure (f t) : StateM Unit _)) start finish).run ⟨.empty, ()⟩).1.1

/-- A search samples where the spacing of its detector says. -/
theorem answer_eq (d : Detector ComponentThreshold Empty) (f : Epoch → TrajectoryState)
    {start finish : Epoch} {later : List Epoch} (h : ¬ finish ≤ start)
    (hinit : (d.init (f start) finish).run (⟨.empty, ()⟩ : Memory Unit) = (d, ⟨.empty, ()⟩))
    (hlater : samplesAfter d.settings.maxCheckInterval finish start = later) :
    d.answer f start finish = ((do
      let p := d.probe fun t => (pure (f t) : StateM Unit _)
      p.scanAlong d.settings later start (← p.g (f start))).run ⟨.empty, ()⟩).1 := by
  rw [answer, run_locate_eq d f h hinit hlater]

/-- A detector that is positive while the component is not, and that permits eighteen bisections. -/
def lowered : Detector ComponentThreshold Empty :=
  (Detector.atomic ⟨0, 0.5⟩ ⟨600.0, 1.0, 18⟩ .continueOnEvent).not

/-- The spacing of one operand is twice the threshold of the same operand, and the number of
bisections is that of the other. -/
theorem compose_exists_value_pulse :
    ∃ d, compose .max [raised, lowered] = .ok d ∧ ∀ e, d.answer pulse ⟨0.0⟩ ⟨2.0⟩ = .error e →
      ∃ s, .value s (.error e) ∈
        d.calls (fun t => (pure (pulse t) : StateM Unit _)) ⟨0.0⟩ ⟨2.0⟩ ⟨.empty, ()⟩ := by
  -- the spacing of `raised` is twice its own threshold
  have hspacing : ∃ d₀ ∈ [raised, lowered], ∀ d ∈ [raised, lowered],
      value (place d₀.settings.maxCheckInterval) ≤ value (place d.settings.threshold) * 2 ^ 1 :=
    ⟨raised, by simp, by decide +kernel⟩
  exact compose_exists_value .max (by decide) hspacing (by decide) _ (by decide) (by decide)
    (by decide) _

/-! ### Composites that fail to converge -/

/-- A detector that is always positive, and permits one bisection. -/
def lax : Detector ComponentThreshold Empty := .atomic ⟨0, -1.0⟩ ⟨1.0, 1.0, 1⟩ .continueOnEvent

/-- A detector that is positive while the component is raised, and needs two bisections. -/
def strict : Detector ComponentThreshold Empty :=
  .atomic ⟨0, 0.5⟩ ⟨1.0, 0.25, 100⟩ .continueOnEvent

/-- The conjunction of both has the threshold of the one and the bisections of the other. -/
def hasty : Detector ComponentThreshold Empty :=
  .boolean .min [strict, lax] ⟨1.0, 0.25, 1⟩ .continueOnEvent

/-- Settings that permit one bisection of an interval of four seconds. -/
def once : Settings := ⟨4.0, 1.0, 1⟩

/-- A detector that is positive while the component is raised, and zero on the touch. -/
def raisedOnce : Detector ComponentThreshold Empty := raised.withSettings once .continueOnEvent

/-- A detector that is negative on the touch, and positive before and after it. -/
def untouched : Detector ComponentThreshold Empty :=
  .boolean .max [.atomic ⟨0, 0.75⟩ once .continueOnEvent,
    (Detector.atomic ⟨0, 0.25⟩ once .continueOnEvent).not] once .continueOnEvent

/-- The conjunction of both is not zero on the touch. -/
def raisedUntouched : Detector ComponentThreshold Empty :=
  .boolean .min [raisedOnce, untouched] once .continueOnEvent

/-- The search of a conjunction may fail to converge even if that of every operand succeeds: because
one operand brings the threshold and another one the number of bisections, and also if all settings
are the same, because one operand meets a zero where another one is negative. -/
theorem compose_convergenceFailure :
    (compose .min [strict, lax] = .ok hasty ∧
      (∀ d ∈ [strict, lax], d.settings.Valid ∧
        ∃ events, d.answer pulse ⟨0.0⟩ ⟨2.0⟩ = .ok events) ∧
      hasty.answer pulse ⟨0.0⟩ ⟨2.0⟩ = .error (.convergenceFailure 1)) ∧
    once.Valid ∧ compose .min [raisedOnce, untouched] = .ok raisedUntouched ∧
      (∀ d ∈ [raisedOnce, untouched], d.settings = once ∧
        ∃ events, d.answer touch ⟨-1.0⟩ ⟨3.0⟩ = .ok events) ∧
      raisedUntouched.answer touch ⟨-1.0⟩ ⟨3.0⟩ = .error (.convergenceFailure 1) := by
  have htouch : samplesAfter 4.0 ⟨3.0⟩ ⟨-1.0⟩ = [⟨3.0⟩] := by
    rw [samplesAfter_of_lt _ (by decide), show nextSample 4.0 ⟨3.0⟩ ⟨-1.0⟩ = ⟨3.0⟩ by decide,
      samplesAfter_of_not_lt _ (by decide)]
  simp only [List.forall_mem_cons, List.not_mem_nil, false_imp_iff, implies_true, and_true]
  refine ⟨⟨rfl, ⟨⟨by decide, ?_⟩, by decide, ?_⟩, ?_⟩, by decide, rfl, ⟨⟨rfl, ?_⟩, rfl, ?_⟩, ?_⟩
  · exact ⟨_, answer_eq strict pulse (by decide) rfl samplesAfter_pulse⟩
  · exact ⟨_, answer_eq lax pulse (by decide) rfl samplesAfter_pulse⟩
  · exact answer_eq hasty pulse (by decide) rfl samplesAfter_pulse
  · exact ⟨_, answer_eq raisedOnce touch (by decide) rfl htouch⟩
  · exact ⟨_, answer_eq untouched touch (by decide) rfl htouch⟩
  · exact answer_eq raisedUntouched touch (by decide) rfl htouch

end Detector

end TrajectoryEvents
