import TrajectoryEvents.Proofs.Search.Grid
import TrajectoryEvents.Proofs.Search.Progress

/-!
# The epochs that a search asks for

A search of an interval between two numbers asks the trajectory for epochs of the interval only, and
reports events there only, whatever the trajectory is and answers. There are two exceptions, because
comparisons with NaN fail.

* An interval with a NaN bound is not refused: the search samples its start once, and is over.
* From negative infinity to another epoch the distance is infinite, and the midpoint is NaN. A NaN
  midpoint counts as lying strictly inside the bracket, and so do those after it.

## Main definitions

* `Admitted`: the epochs of an interval; NaN as well if it starts at negative infinity.
* `Bracket.Within`: a bracket of admitted epochs. Halving preserves this.

## Main results

* `Bracket.Within.midpoint`: its midpoint is admitted, unless the bracket is tight.
* `Narrows.admitted`, `Scans.admitted`: the samples of bisections and scans are at admitted epochs,
  and so are the events.
* `Detector.calls_extent`: the epochs that a search asks for, and those that it reports.
-/

namespace TrajectoryEvents

open Binary64

variable {σ S : Type}

/-! ### Admitted epochs -/

/-- The epochs of an interval. If it starts at negative infinity, then NaN is admitted as well. -/
def Admitted (start finish t : Epoch) : Prop :=
  start ≤ t ∧ t ≤ finish ∨ start = ⟨-infinity⟩ ∧ t.isNaN = true

/-- An admitted number lies in the interval. -/
theorem Admitted.inside {start finish t : Epoch} (h : Admitted start finish t)
    (ht : t.isNaN = false) : start ≤ t ∧ t ≤ finish := by
  refine h.resolve_right fun h => ?_
  rw [ht] at h
  exact Bool.false_ne_true h.2

/-- A number that is not negative infinity stands after it. -/
private theorem neg_top_lt_place {t : Epoch} (ht : t.isNaN = false) (hne : t ≠ ⟨-infinity⟩) :
    -top < t.place := by
  by_contra hle
  exact hne (congrArg Epoch.mk (eq_neg_infinity ht (not_lt.1 hle)))

namespace Bracket

/-- A NaN at either end of a bracket makes its midpoint a NaN. -/
theorem isNaN_midpoint {b : Bracket} (h : b.early.isNaN = true ∨ b.late.isNaN = true) :
    b.midpoint.isNaN = true :=
  isNaN_add (.inr (isNaN_half (isNaN_sub h.symm)))

/-- The midpoint of a bracket that is not tight is strictly inside it, or a NaN. -/
theorem midpoint_cases {b : Bracket} (ht : ¬ b.IsTight) :
    b.midpoint.isNaN = true ∨ b.early < b.midpoint ∧ b.midpoint < b.late := by
  cases hn : b.midpoint.isNaN with
  | true => exact .inl rfl
  | false =>
    right
    have hends := mt isNaN_midpoint (by rw [hn]; exact Bool.false_ne_true)
    rw [not_or, Bool.not_eq_true, Bool.not_eq_true] at hends
    obtain ⟨hearly, hlate⟩ := not_or.1 ht
    rw [Epoch.le_iff_place hn hends.1] at hearly
    rw [Epoch.le_iff_place hends.2 hn] at hlate
    rw [Epoch.lt_iff_place hends.1 hn, Epoch.lt_iff_place hn hends.2]
    omega

/-- A bracket of admitted epochs: strictly increasing, unless one of them is NaN. -/
structure Within (start finish : Epoch) (b : Bracket) : Prop where
  early : Admitted start finish b.early
  late : Admitted start finish b.late
  increasing : b.early.isNaN = false → b.late.isNaN = false → b.early < b.late

variable {start finish : Epoch} {b : Bracket}

/-- A bracket that does not reach back to negative infinity has a number as its midpoint, even if
it reaches positive infinity. -/
theorem Within.isNaN_midpoint (hb : b.Within start finish) (hs : start ≠ ⟨-infinity⟩) :
    b.midpoint.isNaN = false := by
  obtain ⟨hse, -⟩ := hb.early.resolve_right fun h => hs h.1
  obtain ⟨hsl, -⟩ := hb.late.resolve_right fun h => hs h.1
  obtain ⟨hsn, hen, hle⟩ := Epoch.le_iff.1 hse
  have hln := (Epoch.le_iff.1 hsl).2.1
  have hlt := (Epoch.lt_iff.1 (hb.increasing hen hln)).2.2
  have hbottom := neg_top_lt_place hsn hs
  have htop := (place_bounds hln).2
  have hef : b.early.IsFinite :=
    Epoch.isFinite_iff_place.2 ⟨hen, hbottom.trans_le hle, hlt.trans_le htop⟩
  by_cases hlf : b.late.IsFinite
  · exact Epoch.isNaN_midpoint hef hlf hlt.le
  -- the midpoint of a bracket up to positive infinity is positive infinity
  · have hinf : b.late.seconds = store (.infinity .positive) := by
      refine eq_infinity hln ?_
      by_contra hlt'
      refine hlf (Epoch.isFinite_iff_place.2 ⟨hln, ?_, not_le.1 hlt'⟩)
      omega
    change (b.early.seconds + 0.5 * (b.late.seconds - b.early.seconds)).isNaN = false
    rw [hinf, infinite_sub hef, half_infinite, add_infinite hef]
    rfl

/-- The midpoint of a bracket of admitted epochs is admitted, unless the bracket is tight. -/
theorem Within.midpoint (hb : b.Within start finish) (ht : ¬ b.IsTight) :
    Admitted start finish b.midpoint := by
  rcases midpoint_cases ht with hn | ⟨hafter, hbefore⟩
  · refine .inr ⟨?_, hn⟩
    by_contra hs
    rw [hb.isNaN_midpoint hs] at hn
    exact Bool.false_ne_true hn
  · have hearly := hb.early.inside (Epoch.lt_iff.1 hafter).1
    have hlate := hb.late.inside (Epoch.lt_iff.1 hbefore).2.1
    exact .inl ⟨Epoch.le_trans hearly.1 (Epoch.le_of_lt hafter),
      Epoch.le_trans (Epoch.le_of_lt hbefore) hlate.2⟩

/-- Halving a bracket of admitted epochs leaves a bracket of admitted epochs. -/
theorem Within.half (hb : b.Within start finish) (ht : ¬ b.IsTight) (v : Float) :
    (b.half v).Within start finish := by
  have hm := hb.midpoint ht
  have hcases := midpoint_cases ht
  unfold Bracket.half
  split
  · refine ⟨hm, hb.late, fun hn _ => ?_⟩
    exact (hcases.resolve_left (by rw [hn]; exact Bool.false_ne_true)).2
  · refine ⟨hb.early, hm, fun _ hn => ?_⟩
    exact (hcases.resolve_left (by rw [hn]; exact Bool.false_ne_true)).1

end Bracket

/-! ### What a search samples -/

/-- A call that does not sample the trajectory elsewhere than at epochs with a property. -/
def Call.SamplesAt (P : Epoch → Prop) : Call S → Prop
  | .sample t _ => P t
  | _ => True

@[simp]
theorem Call.samplesAt_sample {P : Epoch → Prop} {t : Epoch} {s : S} :
    (Call.sample t s).SamplesAt P ↔ P t :=
  Iff.rfl

@[simp]
theorem Call.samplesAt_value {P : Epoch → Prop} {s : S} {v : Except EventError Float} :
    (Call.value s v).SamplesAt P :=
  trivial

theorem Call.SamplesAt.imp {P Q : Epoch → Prop} (hPQ : ∀ t, P t → Q t) {c : Call S}
    (h : c.SamplesAt P) : c.SamplesAt Q := by
  cases c with
  | sample t s => exact hPQ t h
  | value | consult | replace => trivial

/-- The calls that ask the handler sample nothing. -/
theorem Occurrence.samplesAt_calls (P : Epoch → Prop) (event : Occurrence S) :
    ∀ c ∈ event.calls, c.SamplesAt P := by
  intro c hc
  simp only [Occurrence.calls, List.mem_cons, Option.mem_toList, Option.map_eq_some_iff] at hc
  rcases hc with rfl | ⟨s, -, rfl⟩ <;> trivial

/-- A bisection samples at admitted epochs, and finds one. -/
theorem Narrows.admitted {threshold : Float} {permitted : UInt64} {n : ℕ} {b : Bracket}
    {start finish : Epoch} {calls : List (Call S)} {r : Except EventError (Epoch × S)}
    (h : Narrows threshold permitted n b calls r) (hb : b.Within start finish) :
    (∀ c ∈ calls, c.SamplesAt (Admitted start finish)) ∧
      ∀ epoch s, r = .ok (epoch, s) → Admitted start finish epoch := by
  induction h with
  | narrow | tight =>
    refine ⟨by simpa using hb.late, ?_⟩
    rintro _ _ ⟨⟩
    exact hb.late
  | exhausted => exact ⟨nofun, nofun⟩
  | failed ht => exact ⟨by simpa using hb.midpoint ht, nofun⟩
  | zero ht =>
    refine ⟨by simpa using hb.midpoint ht, ?_⟩
    rintro _ _ ⟨⟩
    exact hb.midpoint ht
  | half _ ht _ ih =>
    obtain ⟨hcalls, hr⟩ := ih (hb.half ht _)
    exact ⟨by simpa [hb.midpoint ht] using hcalls, hr⟩

/-- The samples of a scan are at admitted epochs, and so are its events. -/
theorem Scans.admitted {settings : Settings} {start finish a : Epoch} {v : Float}
    {calls : List (Call S)} {r : Except EventError (List (Occurrence S))}
    (h : Scans settings finish a v calls r) (ha : a < finish → start ≤ a) :
    (∀ c ∈ calls, c.SamplesAt (Admitted start finish)) ∧
      ∀ events, r = .ok events → ∀ event ∈ events, Admitted start finish event.epoch := by
  -- from one sample to the next, the scan stays in the interval
  have hnext {a : Epoch} (v : Float) (ha : a < finish → start ≤ a) (h : a < finish) :
      start ≤ nextSample settings.maxCheckInterval finish a ∧
        Admitted start finish (nextSample settings.maxCheckInterval finish a) ∧
        Bracket.Within start finish ⟨a, v, nextSample settings.maxCheckInterval finish a⟩ := by
    have hb := nextSample_le settings.maxCheckInterval h
    have hab : a < nextSample settings.maxCheckInterval finish a :=
      (Epoch.lt_iff_place (Epoch.lt_iff.1 h).1 (Epoch.le_iff.1 hb).1).2
        (place_lt_place_nextSample _ h)
    have hsb := Epoch.le_trans (ha h) (Epoch.le_of_lt hab)
    exact ⟨hsb, .inl ⟨hsb, hb⟩, .inl ⟨ha h, Epoch.le_of_lt h⟩, .inl ⟨hsb, hb⟩, fun _ _ => hab⟩
  induction h with
  | done =>
    refine ⟨nofun, ?_⟩
    rintro _ ⟨⟩
    nofun
  | @failed a v _ _ ahead => exact ⟨by simpa using (hnext v ha ahead).2.1, nofun⟩
  | @quiet a v _ _ _ _ ahead _ _ ih =>
    obtain ⟨hsb, hb, -⟩ := hnext v ha ahead
    obtain ⟨hcalls, hr⟩ := ih fun _ => hsb
    exact ⟨by simpa [hb] using hcalls, hr⟩
  | @unresolved a v _ _ _ _ ahead _ narrows =>
    obtain ⟨-, hb, hbracket⟩ := hnext v ha ahead
    exact ⟨by simpa [hb] using (narrows.admitted hbracket).1, nofun⟩
  | @stopped a v _ _ _ event ahead _ narrows =>
    obtain ⟨-, hb, hbracket⟩ := hnext v ha ahead
    obtain ⟨hcalls, hepoch⟩ := narrows.admitted hbracket
    have hasked := event.samplesAt_calls (Admitted start finish)
    refine ⟨by simpa [hb, or_imp, forall_and] using ⟨hcalls, hasked⟩, ?_⟩
    rintro _ ⟨⟩
    exact List.forall_mem_singleton.2 (hepoch _ _ rfl)
  | @found a v _ _ _ _ r event ahead _ narrows _ _ ih =>
    obtain ⟨hsb, hb, hbracket⟩ := hnext v ha ahead
    obtain ⟨hcalls, hepoch⟩ := narrows.admitted hbracket
    obtain ⟨hlater, hr⟩ := ih fun _ => hsb
    have hasked := event.samplesAt_calls (Admitted start finish)
    refine ⟨by simpa [hb, or_imp, forall_and] using ⟨hcalls, hasked, hlater⟩, ?_⟩
    cases r with
    | error e => nofun
    | ok later =>
      rintro _ ⟨⟩
      exact List.forall_mem_cons.2 ⟨hepoch _ _ rfl, hr _ rfl⟩

/-- The samples of a search are at admitted epochs, apart from the first one, and so are its
events. -/
theorem Proceeds.admitted {settings : Settings} {start finish : Epoch} {calls : List (Call S)}
    {r : Except EventError (List (Occurrence S))} (h : Proceeds settings start finish calls r) :
    (∀ c ∈ calls, c.SamplesAt fun t => Admitted start finish t ∨ t = start) ∧
      ∀ events, r = .ok events → ∀ event ∈ events, Admitted start finish event.epoch := by
  cases h with
  | failed => exact ⟨by simp, nofun⟩
  | scanned scans =>
    obtain ⟨hcalls, hr⟩ := scans.admitted fun h =>
      Epoch.le_iff.2 ⟨(Epoch.lt_iff.1 h).1, (Epoch.lt_iff.1 h).1, le_rfl⟩
    refine ⟨?_, hr⟩
    simpa using fun c hc => (hcalls c hc).imp fun t => Or.inl

namespace Detector

variable {ι κ τ : Type} [Indicator ι S] [Snapshot S] [CustomHandler κ S τ] [Initializable ι S τ]

/-- The epochs that a search asks for, and those that it reports. Whatever the detector, the
trajectory and the bounds are:

* Every epoch at which the trajectory is sampled lies in the interval. If the interval starts at
  negative infinity, it may also be NaN; if a bound is NaN, the start is the only one.
* Every event lies in the interval. If the interval starts at negative infinity, its epoch may also
  be NaN.
* Two numbers that are not the bounds of an interval lead to no call at all. -/
theorem calls_extent (d : Detector ι κ) (trajectory : Epoch → StateM τ S) (start finish : Epoch)
    (m : Memory τ) :
    (∀ t s, .sample t s ∈ d.calls trajectory start finish m →
      Admitted start finish t ∨ (start.isNaN = true ∨ finish.isNaN = true) ∧ t = start) ∧
    (∀ events, ((d.locate trajectory start finish).run m).1.1 = .ok events →
      ∀ event ∈ events, Admitted start finish event.epoch) ∧
    (start.isNaN = false → finish.isNaN = false → ¬ start < finish →
      d.calls trajectory start finish m = []) := by
  by_cases h : finish ≤ start
  · rw [d.calls_of_le trajectory h, d.run_locate_of_le trajectory h]
    refine ⟨fun t s ht => absurd ht List.not_mem_nil, fun events he => ?_, fun _ _ _ => rfl⟩
    cases he
  have hlt (hs : start.isNaN = false) (hf : finish.isNaN = false) : start < finish := by
    rw [Epoch.le_iff_place hf hs] at h
    exact (Epoch.lt_iff_place hs hf).2 (not_le.1 h)
  -- the start itself is admitted, unless a bound is NaN
  have hstart : Admitted start finish start ∨ (start.isNaN = true ∨ finish.isNaN = true) := by
    cases hs : start.isNaN with
    | true => exact .inr (.inl rfl)
    | false =>
      cases hf : finish.isNaN with
      | true => exact .inr (.inr rfl)
      | false =>
        exact .inl (.inl ⟨Epoch.le_iff.2 ⟨hs, hs, le_rfl⟩, Epoch.le_of_lt (hlt hs hf)⟩)
  obtain ⟨hcalls, hevents⟩ := (d.proceeds_locate trajectory h m).admitted
  refine ⟨fun t s ht => ?_, hevents, fun hs hf hnot => absurd (hlt hs hf) hnot⟩
  rcases hcalls _ ht with hadmitted | rfl
  · exact .inl hadmitted
  · exact hstart.imp_right fun hnan => ⟨hnan, rfl⟩

/-! ### From negative infinity on -/

/-- The earliest finite epoch. -/
def earliest : Epoch := (⟨-infinity⟩ : Epoch).nextRepresentable

/-- A state whose only component is negative at negative infinity and positive at all other
instants. -/
def onset (t : Epoch) : TrajectoryState :=
  ⟨t, [if t < earliest then -1.0 else if t.isNaN then 0.0 else 1.0]⟩

/-- A detector that is positive while the component is. -/
def positive : Detector ComponentThreshold Empty := ofIndicator ⟨0, 0.0⟩

theorem samplesAfter_onset : samplesAfter 600.0 earliest ⟨-infinity⟩ = [earliest] := by
  rw [samplesAfter_of_lt _ (by decide), show nextSample 600.0 earliest ⟨-infinity⟩ = earliest by
    decide, samplesAfter_of_not_lt _ (by decide)]

/-- The first bisection looks at NaN, and takes the zero there for the event. -/
theorem run_locate_onset :
    ((positive.locate (fun t => (pure (onset t) : StateM Unit _)) ⟨-infinity⟩ earliest).run
      ⟨.empty, ()⟩).1.1 =
        .ok [⟨⟨infinity - infinity⟩, onset ⟨infinity - infinity⟩, true, .proceed, none⟩] := by
  rw [run_locate_eq positive onset (by decide) rfl samplesAfter_onset]
  rfl

/-- The component becomes positive right after negative infinity, and an event is reported at no
instant at all. -/
theorem calls_extent_onset :
    ∃ events, ((positive.locate (fun t => (pure (onset t) : StateM Unit _)) ⟨-infinity⟩
        earliest).run ⟨.empty, ()⟩).1.1 = .ok events ∧
      ∃ event ∈ events, event.epoch.isNaN = true ∧ ¬ (⟨-infinity⟩ : Epoch) ≤ event.epoch := by
  refine ⟨_, run_locate_onset, _, List.mem_cons_self, ?_⟩
  change (infinity - infinity).isNaN = true ∧ ¬ (⟨-infinity⟩ : Epoch) ≤ ⟨infinity - infinity⟩
  decide

end Detector

end TrajectoryEvents
