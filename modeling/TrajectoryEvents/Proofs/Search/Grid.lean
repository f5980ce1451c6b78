import Mathlib.Data.List.Chain
import Mathlib.Logic.Function.Iterate
import TrajectoryEvents.Detector.Locate
import TrajectoryEvents.Proofs.Epoch.Duration
import TrajectoryEvents.Proofs.Search.Walk

/-!
# The sample epochs of a scan

A step of a scan is a rounded sum, compared against a rounded difference. It may be lost in
rounding, and the difference may be inexact or overflow; still the samples of a finite interval move
strictly forward, do not pass the end, and meet it exactly.

## Main definitions

* `samples`: the epochs at which a scan samples, the start of the interval included.
* `SpacedBy`: how far apart two consecutive samples may be.
* `Covers`: samples that lead from the start of an interval to its end.

## Main results

* `nextSample_cases`: everything that one step of a scan can do.
* `nextSample_le`, `nextSample_between`, `nextSample_eq_finish`: a step moves forward and does not
  pass the end of the interval, and if it does not stay before the end then it is the end.
* `scan_samples`: a scan ends, and its samples cover the interval.
-/

namespace TrajectoryEvents

open Binary64

/-- The epochs at which a scan samples an interval: its start, and all later ones. -/
def samples (step : Float) (start finish : Epoch) : List Epoch :=
  start :: samplesAfter step finish start

/-- Two epochs no further apart than a step: by their rounded distance, because the second is the
first shifted by the step, or because no epoch is between them. -/
def SpacedBy (step : Float) (a b : Epoch) : Prop :=
  b.durationFrom a ≤ step ∨ b = a.shiftedBy step ∨ Epoch.Adjacent a b

/-- Samples that cover an interval: strictly increasing and spaced by the step, from the start of
the interval to its end. -/
structure Covers (step : Float) (start finish : Epoch) (grid : List Epoch) : Prop where
  head : grid.head? = some start
  last : grid.getLast? = some finish
  increasing : grid.Pairwise (· < ·)
  bounded : ∀ t ∈ grid, t ≤ finish
  spaced : grid.IsChain (SpacedBy step)

variable {step : Float} {a finish : Epoch}

/-! ### One step -/

/-- What is less than some double is finite or negative infinity. -/
private theorem isFinite_of_lt {x y : Float} (h : x < y) :
    x.isFinite = true ∨ x = store (.infinity .negative) := by
  obtain ⟨hx, hy, hlt⟩ := Binary64.lt_iff.1 h
  have htop := (place_bounds hy).2
  by_cases hinf : place x ≤ -top
  · exact .inr (eq_neg_infinity hx hinf)
  · refine .inl (isFinite_iff.2 ⟨hx, by omega, ?_⟩)
    unfold top
    omega

/-- A step that moves forward and falls short of the end is a finite one. -/
theorem isFinite_step (ha : a.IsFinite) (h : step < finish.durationFrom a)
    (hb : ¬ a.shiftedBy step ≤ a) : step.isFinite = true := by
  rcases isFinite_of_lt h with hs | rfl
  · exact hs
  -- negative infinity leads back to negative infinity
  · refine absurd ?_ hb
    obtain ⟨hn, hlt, -⟩ := Epoch.isFinite_iff_place.1 ha
    have he : (a.shiftedBy (store (.infinity .negative))).seconds = store (.infinity .negative) :=
      add_infinite ha .negative
    refine Epoch.le_iff.2 ⟨?_, hn, ?_⟩
    · rw [Epoch.isNaN, he]
      rfl
    · have hp : (a.shiftedBy (store (.infinity .negative))).place = -top := by
        rw [Epoch.place, he]
        rfl
      omega

/-- Everything that one step of a scan can do: go to the end, which is no further away than the
step; go forward by the step; or go to the very next epoch, because the step does not lead
forward. -/
theorem nextSample_cases (step : Float) (ha : a.IsFinite) (hf : finish.IsFinite) (h : a < finish) :
    (nextSample step finish a = finish ∧ ¬ step < finish.durationFrom a) ∨
    (nextSample step finish a = a.shiftedBy step ∧ step.isFinite = true ∧
      step < finish.durationFrom a ∧ ¬ a.shiftedBy step ≤ a) ∨
    ((nextSample step finish a = finish ∨ nextSample step finish a < finish) ∧
      (nextSample step finish a).isNaN = false ∧
      (nextSample step finish a).place = a.place + 1 ∧ step < finish.durationFrom a ∧
      a.shiftedBy step ≤ a) := by
  have hlt := (Epoch.lt_iff_place ha.isNaN hf.isNaN).1 h
  unfold nextSample stepped
  by_cases hs : step < finish.durationFrom a
  · rw [if_pos hs]
    by_cases hb : a.shiftedBy step ≤ a
    -- the step is lost in rounding, or leads backwards
    · obtain ⟨hn, hp⟩ := Epoch.place_nextRepresentable h
      rw [if_pos hb]
      by_cases hnext : a.nextRepresentable < finish
      · rw [if_pos hnext]
        exact .inr (.inr ⟨.inr hnext, hn, hp, hs, hb⟩)
      · rw [if_neg hnext]
        rw [Epoch.lt_iff_place hn hf.isNaN] at hnext
        exact .inr (.inr ⟨.inl rfl, hf.isNaN, by omega, hs, hb⟩)
    · rw [if_neg hb]
      exact .inr (.inl ⟨rfl, isFinite_step ha hs hb, hs, hb⟩)
  -- the end is no further away than the step
  · have hle : ¬ finish ≤ a := by
      rw [Epoch.le_iff_place hf.isNaN ha.isNaN]
      omega
    rw [if_neg hs, if_neg hle]
    exact .inl ⟨rfl, hs⟩

/-- A step of a scan does not pass the end, even from or to an infinity. -/
theorem nextSample_le (step : Float) (h : a < finish) : nextSample step finish a ≤ finish := by
  obtain ⟨ha, hf, hlt⟩ := Epoch.lt_iff.1 h
  have hrefl : finish ≤ finish := Epoch.le_iff.2 ⟨hf, hf, le_rfl⟩
  unfold nextSample
  split
  · split
    next hnext => exact Epoch.le_of_lt hnext
    next => exact hrefl
  next hb =>
    unfold stepped at hb ⊢
    split
    next hs =>
      rw [if_pos hs] at hb
      have htop := (place_bounds hf).2
      by_cases haf : a.IsFinite
      · have hstep := isFinite_step haf hs hb
        by_cases hff : finish.IsFinite
        · exact Epoch.shiftedBy_le haf hff hstep hs
        -- nothing passes positive infinity
        · obtain ⟨hn, hr⟩ := Epoch.rounds_shiftedBy haf hstep
          have := (Epoch.isFinite_iff_place.1 haf).2.1
          refine Epoch.le_iff.2 ⟨hn, hf, hr.le_top.trans ?_⟩
          by_contra hle
          exact hff (Epoch.isFinite_iff_place.2 ⟨hf, by omega, by omega⟩)
      -- from negative infinity no step leads forward
      · obtain ⟨hsn, hdn, hs⟩ := Binary64.lt_iff.1 hs
        have hinf : a.seconds = store (.infinity .negative) := by
          refine eq_neg_infinity ha ?_
          by_contra hle
          refine haf (Epoch.isFinite_iff_place.2 ⟨ha, ?_, hlt.trans_le htop⟩)
          unfold Epoch.place
          omega
        have hsame : a.shiftedBy step = a := by
          unfold Epoch.shiftedBy
          rw [hinf, neg_infinite_add hsn (hs.trans_le (place_bounds hdn).2), ← hinf]
        rw [hsame] at hb
        exact absurd (Epoch.le_iff.2 ⟨ha, ha, le_rfl⟩) hb
    next => exact hrefl

/-- A step of a scan moves forward without passing the end. -/
theorem nextSample_between (step : Float) (ha : a.IsFinite) (hf : finish.IsFinite)
    (h : a < finish) :
    (nextSample step finish a).IsFinite ∧ a.place < (nextSample step finish a).place ∧
      (nextSample step finish a).place ≤ finish.place := by
  have hforward := place_lt_place_nextSample step h
  obtain ⟨hn, -, hle⟩ := Epoch.le_iff.1 (nextSample_le step h)
  exact ⟨ha.of_between hf hn hforward.le hle, hforward, hle⟩

/-- The first sample that is not before the end of the interval is the end itself, and not merely
numerically equal to it. -/
theorem nextSample_eq_finish (step : Float) (ha : a.IsFinite) (hf : finish.IsFinite)
    (h : a < finish) (hb : ¬ nextSample step finish a < finish) :
    nextSample step finish a = finish := by
  obtain ⟨hfin, -, hle⟩ := nextSample_between step ha hf h
  have hplace : (nextSample step finish a).place = finish.place := by
    rw [Epoch.lt_iff_place hfin.isNaN hf.isNaN] at hb
    omega
  rcases nextSample_cases step ha hf h with ⟨he, -⟩ | ⟨he, hd, hs, -⟩ | ⟨he | hlt, -⟩
  · exact he
  -- only at the reference instant could the sum differ from the end, and it does not get there
  · rw [he] at hplace ⊢
    refine congrArg Epoch.mk (eq_of_place_eq hplace fun h0 => ?_)
    exact (Epoch.place_shiftedBy_lt_zero ha hf hd hs (hplace.symm.trans h0)).ne h0
  · exact he
  · exact absurd hlt hb

/-- Consecutive samples are spaced by the step. -/
theorem spacedBy_nextSample (hstep : step.isNaN = false) (ha : a.IsFinite) (hf : finish.IsFinite)
    (h : a < finish) : SpacedBy step a (nextSample step finish a) := by
  rcases nextSample_cases step ha hf h with ⟨he, hs⟩ | ⟨he, -⟩ | ⟨-, hn, hp, -⟩
  · refine .inl ?_
    obtain ⟨hd, -⟩ := Epoch.rounds_durationFrom ha hf
    rw [Binary64.lt_iff] at hs
    rw [he, Binary64.le_iff]
    refine ⟨hd, hstep, ?_⟩
    -- not being greater is being at most only because neither is a NaN
    by_contra hlt
    exact hs ⟨hstep, hd, by omega⟩
  · exact .inr (.inl he)
  · exact .inr (.inr ((Epoch.adjacent_iff ha.isNaN hn).2 hp))

/-! ### All samples -/

section Samples

variable (step : Float) (hf : finish.IsFinite)
include hf

/-- The samples after a finite epoch are finite epochs, none of them past the end. -/
theorem mem_samplesAfter (ha : a.IsFinite) :
    ∀ t ∈ samplesAfter step finish a,
      t.IsFinite ∧ a.place < t.place ∧ t.place ≤ finish.place := by
  induction a using sampling_induction step finish with
  | next a h ih =>
    obtain ⟨hfin, hlt, hle⟩ := nextSample_between step ha hf h
    rw [samplesAfter_of_lt _ h]
    rintro t (_ | ⟨_, ht⟩)
    · exact ⟨hfin, hlt, hle⟩
    · obtain ⟨htf, hlt', hle'⟩ := ih hfin t ht
      exact ⟨htf, hlt.trans hlt', hle'⟩
  | done a h =>
    rw [samplesAfter_of_not_lt _ h]
    nofun

/-- The samples of an interval strictly increase. -/
theorem isChain_precedes_samples (ha : a.IsFinite) :
    (samples step a finish).IsChain Epoch.Precedes := by
  induction a using sampling_induction step finish with
  | next a h ih =>
    obtain ⟨hfin, hlt, -⟩ := nextSample_between step ha hf h
    rw [samples, samplesAfter_of_lt _ h]
    exact .cons_cons (.of_place_lt ha hfin hlt) (ih hfin)
  | done a h =>
    rw [samples, samplesAfter_of_not_lt _ h]
    exact .singleton _

/-- The last sample of an interval is its end. -/
theorem getLast?_samples (ha : a.IsFinite) (h : a < finish) :
    (samples step a finish).getLast? = some finish := by
  induction a using sampling_induction step finish with
  | next a _ ih =>
    rw [samples, samplesAfter_of_lt _ h, List.getLast?_cons_cons]
    by_cases hb : nextSample step finish a < finish
    · exact ih (nextSample_between step ha hf h).1 hb
    -- the walk leaves the interval at its end
    · rw [samplesAfter_of_not_lt _ hb, nextSample_eq_finish step ha hf h hb]
      rfl
  | done a hn => exact absurd h hn

/-- Consecutive samples of an interval are spaced by the step. -/
theorem isChain_samples (hstep : step.isNaN = false) (ha : a.IsFinite) :
    (samples step a finish).IsChain (SpacedBy step) := by
  induction a using sampling_induction step finish with
  | next a h ih =>
    rw [samples, samplesAfter_of_lt _ h]
    exact .cons_cons (spacedBy_nextSample hstep ha hf h) (ih (nextSample_between step ha hf h).1)
  | done a h =>
    rw [samples, samplesAfter_of_not_lt _ h]
    exact .singleton _

end Samples

/-- The walk from an epoch leaves the interval after as many steps as there are samples. -/
theorem samplesAfter_length_spec (step : Float) (finish a : Epoch) :
    (∀ k < (samplesAfter step finish a).length, (nextSample step finish)^[k] a < finish) ∧
      ¬ (nextSample step finish)^[(samplesAfter step finish a).length] a < finish := by
  induction a using sampling_induction step finish with
  | next a h ih =>
    rw [samplesAfter_of_lt _ h, List.length_cons]
    refine ⟨?_, ih.2⟩
    intro k hk
    match k with
    | 0 => exact h
    | k + 1 => exact ih.1 k (by omega)
  | done a h =>
    rw [samplesAfter_of_not_lt _ h]
    exact ⟨nofun, h⟩

/-- An interval has no more samples than epochs. -/
theorem length_samplesAfter_le (step : Float) (finish a : Epoch) :
    (samplesAfter step finish a).length ≤ a.remaining finish := by
  induction a using sampling_induction step finish with
  | next a h ih =>
    have := remaining_nextSample_lt step h
    rw [samplesAfter_of_lt _ h, List.length_cons]
    omega
  | done a h =>
    rw [samplesAfter_of_not_lt _ h]
    exact Nat.zero_le _

/-- The samples of a finite interval cover it. -/
theorem covers_samples {start : Epoch} (hstep : step.isNaN = false) (hs : start.IsFinite)
    (hf : finish.IsFinite) (h : start < finish) :
    Covers step start finish (samples step start finish) where
  head := rfl
  last := getLast?_samples step hf hs h
  increasing := (isChain_precedes_samples step hf hs).pairwise.imp Epoch.Precedes.lt
  bounded := by
    rintro t (_ | ⟨_, ht⟩)
    · have hlt := (Epoch.lt_iff_place hs.isNaN hf.isNaN).1 h
      exact (Epoch.le_iff_place hs.isNaN hf.isNaN).2 hlt.le
    · obtain ⟨htf, -, hle⟩ := mem_samplesAfter step hf hs t ht
      exact (Epoch.le_iff_place htf.isNaN hf.isNaN).2 hle
  spaced := isChain_samples step hf hstep hs

/-- A scan ends, and its samples cover the interval.

* Whatever the epochs and the spacing are, the scan leaves the interval after finitely many steps,
  no more than there are epochs in it.
* Whatever is searched, the scan is a walk along samples that the interval and the spacing
  determine; a failure or a decision to stop may cut the walk short.
* A search of the interval samples its start, prepares the detector for the state there, asks for
  the first value, and is this walk from there on.
* With valid settings, the samples of a finite interval cover it. -/
theorem scan_samples (settings : Settings) (start finish : Epoch) :
    (∃ n ≤ start.remaining finish,
      (∀ k < n, (nextSample settings.maxCheckInterval finish)^[k] start < finish) ∧
        ¬ (nextSample settings.maxCheckInterval finish)^[n] start < finish) ∧
    (∀ (σ S : Type) (p : Probe σ S) (value : Float),
      p.scan settings finish start value =
        p.scanAlong settings (samples settings.maxCheckInterval start finish).tail start value) ∧
    (∀ (ι κ S τ : Type) [Indicator ι S] [Snapshot S] [CustomHandler κ S τ] [Initializable ι S τ]
        (d : Detector ι κ) (trajectory : Epoch → StateM τ S) (m : Memory τ),
      d.settings = settings → ¬ finish ≤ start →
        (d.locate trajectory start finish).run m =
          let s := (trajectory start m.custom).1
          let r := (d.init s finish).run (Memory.withCustom (trajectory start) m).2
          let w := (do
            let value ← (r.1.probe trajectory).g s
            (r.1.probe trajectory).scanAlong settings
              (samples settings.maxCheckInterval start finish).tail start value).run r.2
          ((w.1, r.1), w.2)) ∧
    (settings.Valid → start.IsFinite → finish.IsFinite → start < finish →
      Covers settings.maxCheckInterval start finish
        (samples settings.maxCheckInterval start finish)) := by
  refine ⟨⟨_, length_samplesAfter_le settings.maxCheckInterval finish start, ?_⟩, ?_, ?_, ?_⟩
  · exact samplesAfter_length_spec settings.maxCheckInterval finish start
  · intro σ S p value
    exact p.scan_eq_scanAlong settings finish start value
  · rintro ι κ S τ _ _ _ _ d trajectory m rfl h
    rw [d.run_locate trajectory h]
    dsimp only
    rw [Detector.search, Detector.settings_init, Probe.search_eq]
    rfl
  · intro hv hs hf h
    exact covers_samples (isFinite_iff.1 hv.maxCheckInterval.1).1 hs hf h

/-- A step that is lost in rounding still leads to the end of an interval. -/
theorem scan_samples_lost_step :
    Covers 0.5 ⟨1e16⟩ ⟨10000000000000008.0⟩ (samples 0.5 ⟨1e16⟩ ⟨10000000000000008.0⟩) :=
  (scan_samples ⟨0.5, 1e-6, 100⟩ ⟨1e16⟩ ⟨10000000000000008.0⟩).2.2.2 (by decide) (by decide)
    (by decide) (by decide)

end TrajectoryEvents
