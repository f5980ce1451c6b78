import TrajectoryEvents.Proofs.Search.Exactness

/-!
# A smaller threshold

A bisection with a smaller threshold does what the one with the larger threshold does, and then goes
on. Where the latter ends, at the late end of a narrow bracket, the former goes on inside that
bracket, so that the epoch found moves back, by no more than the larger threshold. At a tight
bracket or at a zero both end.

## Main definitions

* `Finding.Tightens`, `Occurrence.Tightens`: an event that is found with a smaller threshold.

## Main results

* `narrow_tightens`: a bisection with a smaller threshold.
* `outline_tightens`: what there is to be found with a smaller threshold.
* `Detector.locate_withThreshold`: the events of a search with a smaller threshold.
-/

namespace TrajectoryEvents

/-! ### Bisections -/

/-- No time passes from an epoch to itself. -/
theorem Epoch.durationFrom_self_le {e : Epoch} (he : e.IsFinite) {threshold : Float}
    (h : Settings.IsUsable threshold) : e.durationFrom e ≤ threshold := by
  obtain ⟨hn, hr⟩ := Epoch.rounds_durationFrom he he
  obtain ⟨htn, hpos⟩ := Binary64.zero_lt_iff.1 h.2
  have hle := hr.le_of_le_value (q := 0) (by decide) (by decide) (by simp [Binary64.value_zero])
  exact Binary64.le_iff.2 ⟨hn, htn, by omega⟩

section Narrow

variable {g : Epoch → Except EventError Float} {threshold threshold' : Float} {permitted : UInt64}
  {n : ℕ} {b : Bracket} {e e' : Epoch}

/-- Wherever a bisection ends inside a narrow bracket, the late end is no further away than the
threshold. -/
theorem narrow_close (hb : b.early.Precedes b.late) (hw : b.width ≤ threshold)
    (h : narrow g threshold' permitted n b = .ok e) :
    e ≤ b.late ∧ b.late.durationFrom e ≤ threshold := by
  obtain ⟨hafter, hupTo⟩ := narrow_between hb h
  have hearly := Epoch.lt_iff.1 hafter
  have hlate := Epoch.le_iff.1 hupTo
  have he : e.IsFinite := hb.left.of_between hb.right hearly.2.1 hearly.2.2.le hlate.2.2
  refine ⟨hupTo, Binary64.le_trans ?_ hw⟩
  exact Epoch.durationFrom_le_durationFrom hb.left hb.right he hb.right hearly.2.2.le le_rfl

/-- With a smaller threshold, a bisection ends no later, and earlier by no more than the larger
threshold. -/
theorem narrow_tightens (hthr : Settings.IsUsable threshold) (hle : threshold' ≤ threshold)
    (hb : b.early.Precedes b.late) (h : narrow g threshold permitted n b = .ok e)
    (h' : narrow g threshold' permitted n b = .ok e') :
    e' ≤ e ∧ e.durationFrom e' ≤ threshold := by
  have hsame {t : Epoch} (ht : t.IsFinite) : t ≤ t ∧ t.durationFrom t ≤ threshold :=
    ⟨(Epoch.le_iff_place ht.isNaN ht.isNaN).2 le_rfl, Epoch.durationFrom_self_le ht hthr⟩
  -- both bisections make the same halvings, until the bracket is narrow for the larger threshold
  induction n generalizing b with
  | zero =>
    obtain ⟨hw, rfl⟩ | ⟨-, _, ⟨⟩, -⟩ := narrow_cases h
    exact narrow_close hb hw h'
  | succ n ih =>
    obtain ⟨hw, rfl⟩ | ⟨hw, _, ⟨⟩, hround⟩ := narrow_cases h
    · exact narrow_close hb hw h'
    obtain ⟨hw', -⟩ | ⟨-, _, ⟨⟩, hround'⟩ := narrow_cases h'
    · exact absurd (Binary64.le_trans hw' hle) hw
    rcases hround with ⟨ht, rfl⟩ | ⟨ht, v, hv, hround⟩
    · obtain ⟨-, rfl⟩ := hround'.resolve_right fun hr => hr.1 ht
      exact hsame hb.right
    obtain ⟨-, v', hv', hround'⟩ := hround'.resolve_left fun hr => ht hr.1
    obtain rfl := Except.ok.inj (hv.symm.trans hv')
    rcases hround with ⟨h0, rfl⟩ | ⟨h0, hlater⟩
    · obtain ⟨-, rfl⟩ := hround'.resolve_right fun hr => hr.1 h0
      exact hsame (Bracket.midpoint_between hb ht).1.right
    · obtain ⟨-, hlater'⟩ := hround'.resolve_left fun hr => h0 hr.1
      exact ih ((Bracket.Inside.refl hb).half ht v).precedes hlater hlater'

end Narrow

/-! ### Outlines -/

/-- An event that is found with a smaller threshold than the finding `x`: the direction is the same,
and the epoch is not later, and earlier by no more than the threshold of `x`. -/
structure Finding.Tightens (threshold : Float) (x x' : Finding) : Prop where
  increasing : x'.increasing = x.increasing
  notAfter : x'.epoch ≤ x.epoch
  close : x.epoch.durationFrom x'.epoch ≤ threshold

/-- With a smaller threshold, there is the same to be found at the same samples, not later. -/
theorem outline_tightens {g : Epoch → Except EventError Float} {settings : Settings}
    {threshold threshold' : Float} (hthr : Settings.IsUsable threshold)
    (hle : threshold' ≤ threshold) {ts : List Epoch} {a : Epoch} {v : Float}
    (hts : (a :: ts).IsChain Epoch.Precedes)
    (h : (outline g { settings with threshold } ts a v).failure = none)
    (h' : (outline g { settings with threshold := threshold' } ts a v).failure = none) :
    List.Forall₂ (Finding.Tightens threshold) (outline g { settings with threshold } ts a v).found
      (outline g { settings with threshold := threshold' } ts a v).found := by
  induction ts generalizing a v with
  | nil => exact .nil
  | cons b rest ih =>
    obtain ⟨hab, hrest⟩ := List.isChain_cons_cons.1 hts
    obtain ⟨w, hw, hlater, hround⟩ := outline_cons_cases h
    obtain ⟨w', hw', hlater', hround'⟩ := outline_cons_cases h'
    obtain rfl := Except.ok.inj (hw.symm.trans hw')
    have hfound := ih hrest hlater hlater'
    rcases hround with ⟨hc, heq⟩ | ⟨hc, e, hr, heq⟩
    · obtain ⟨-, heq'⟩ := hround'.resolve_right fun hr => hc hr.1
      rw [heq, heq']
      exact hfound
    · obtain ⟨-, e', hr', heq'⟩ := hround'.resolve_left fun hr => hr.1 hc
      obtain ⟨hnotAfter, hclose⟩ := narrow_tightens hthr hle hab hr hr'
      rw [heq, heq']
      exact .cons ⟨rfl, hnotAfter, hclose⟩ hfound

/-! ### Searches -/

variable {S : Type}

/-- An event that is found with a smaller threshold than `event`. -/
structure Occurrence.Tightens (threshold : Float) (event event' : Occurrence S) : Prop where
  increasing : event'.increasing = event.increasing
  notAfter : event'.epoch ≤ event.epoch
  close : event.epoch.durationFrom event'.epoch ≤ threshold

/-- What is reported of a finding is found with a smaller threshold if the finding is. -/
theorem Finding.Tightens.occurrence {f : Epoch → S} {threshold : Float} {x x' : Finding}
    {event event' : Occurrence S} (h : x.Tightens threshold x') (hx : x.Matches f event)
    (hx' : x'.Matches f event') : event.Tightens threshold event' where
  increasing := by rw [hx'.increasing, hx.increasing, h.increasing]
  notAfter := by
    rw [hx'.epoch, hx.epoch]
    exact h.notAfter
  close := by
    rw [hx'.epoch, hx.epoch]
    exact h.close

namespace Detector

variable {ι κ τ : Type} [Indicator ι S] [Snapshot S] [CustomHandler κ S τ] [Initializable ι S τ]

section Locate

variable (d : Detector ι κ) {trajectory : Epoch → StateM τ S} {f : Epoch → S}
  (hf : ∀ t m, (trajectory t m).1 = f t) {start finish : Epoch}
include hf

/-- A search with any settings that is completed without a decision to stop reports what there is to
be found with these settings. The values are those of the detector as it is prepared with its own
settings. -/
theorem exists_found (h : ¬ finish ≤ start) {m : Memory τ} {settings : Settings}
    {events : List (Occurrence S)}
    (hevents : (((d.withSettings settings d.handler).locate trajectory start finish).run m).1.1 =
      .ok events)
    (hgo : ∀ e ∈ events, e.action ≠ .stop) :
    ∃ value, (d.prepared trajectory start finish m).g (f start) = .ok value ∧
      (outline (fun t => (d.prepared trajectory start finish m).g (f t)) settings
        (samplesAfter settings.maxCheckInterval finish start) start value).failure = none ∧
      List.Forall₂ (Finding.Matches f)
        (outline (fun t => (d.prepared trajectory start finish m).g (f t)) settings
          (samplesAfter settings.maxCheckInterval finish start) start value).found events := by
  have hg (s : S) : ((d.withSettings settings d.handler).prepared trajectory start finish m).g s =
      (d.prepared trajectory start finish m).g s := by
    rw [prepared_withSettings, g_withSettings]
  have hrun : ((d.withSettings settings d.handler).locate trajectory start finish).run m =
      ((.ok events, (d.withSettings settings d.handler).prepared trajectory start finish m), _) :=
    Prod.ext (Prod.ext hevents rfl) rfl
  obtain ⟨-, value, hvalue, hreported⟩ := exists_reported hf h hrun
  simp only [hg, settings_withSettings] at hvalue hreported
  exact ⟨value, hvalue, hreported.of_ok hgo⟩

/-- A smaller threshold only refines the events. Along a trajectory that is a function of the epoch,
let a detector with valid settings be searched with two thresholds, from the same memory, and let
both searches of a finite interval be completed without a decision to stop. Then they report equally
many events with the same directions, in order. The search with the smaller threshold `threshold'`
finds each of them no later than the other search does, and earlier by no more than `threshold`. -/
theorem locate_withThreshold (hv : d.settings.Valid) {threshold threshold' : Float}
    (hthr : Settings.IsUsable threshold) (hthr' : Settings.IsUsable threshold')
    (hle : threshold' ≤ threshold) (hs : start.IsFinite) (hfin : finish.IsFinite)
    (h : start < finish) (m : Memory τ) :
    ∃ d₁ d₂, d.withThreshold threshold = .ok d₁ ∧ d.withThreshold threshold' = .ok d₂ ∧
      ∀ events events', ((d₁.locate trajectory start finish).run m).1.1 = .ok events →
        ((d₂.locate trajectory start finish).run m).1.1 = .ok events' →
        (∀ e ∈ events, e.action ≠ .stop) → (∀ e ∈ events', e.action ≠ .stop) →
        List.Forall₂ (Occurrence.Tightens threshold) events events' := by
  refine ⟨_, _, withThreshold_eq hv hthr, withThreshold_eq hv hthr', ?_⟩
  intro events events' hevents hevents' hgo hgo'
  have hnot : ¬ finish ≤ start := (Epoch.Precedes.mk hs hfin h).not_le
  obtain ⟨value, hvalue, hfailure, hmatches⟩ := d.exists_found hf hnot hevents hgo
  obtain ⟨value', hvalue', hfailure', hmatches'⟩ := d.exists_found hf hnot hevents' hgo'
  obtain rfl := Except.ok.inj (hvalue.symm.trans hvalue')
  have hchain := isChain_precedes_samples d.settings.maxCheckInterval hfin hs
  have hfound := outline_tightens hthr hle hchain hfailure hfailure'
  -- the findings of either search stand between the two lists of events
  have hevent (event x' event') (hx : ∃ x, Finding.Matches f x event ∧ x.Tightens threshold x')
      (hx' : Finding.Matches f x' event') : event.Tightens threshold event' :=
    hx.elim fun _ hx => hx.2.occurrence hx.1 hx'
  refine forall₂_comp hevent (forall₂_comp ?_ hmatches.flip hfound) hmatches'
  exact fun _ x _ hmatch htightens => ⟨x, hmatch, htightens⟩

end Locate

/-! ### A pulse -/

/-- With half the threshold, both edges of the pulse are found earlier. -/
theorem run_locate_pulse_quarter :
    (((raised.withSettings ⟨1.0, 0.25, 100⟩ raised.handler).locate
        (fun t => (pure (pulse t) : StateM Unit _)) ⟨0.0⟩ ⟨2.0⟩).run ⟨.empty, ()⟩).1.1 =
      .ok [⟨⟨0.25⟩, pulse ⟨0.25⟩, true, .proceed, none⟩,
        ⟨⟨1.75⟩, pulse ⟨1.75⟩, false, .proceed, none⟩] := by
  rw [run_locate_eq (raised.withSettings ⟨1.0, 0.25, 100⟩ raised.handler) pulse (by decide) rfl
    samplesAfter_pulse]
  rfl

/-- They are found earlier by no more than the larger threshold. -/
theorem locate_withThreshold_pulse :
    ∃ d₁ d₂ events events', raised.withThreshold 0.5 = .ok d₁ ∧
      raised.withThreshold 0.25 = .ok d₂ ∧
      ((d₁.locate (fun t => (pure (pulse t) : StateM Unit _)) ⟨0.0⟩ ⟨2.0⟩).run
        ⟨.empty, ()⟩).1.1 = .ok events ∧
      ((d₂.locate (fun t => (pure (pulse t) : StateM Unit _)) ⟨0.0⟩ ⟨2.0⟩).run
        ⟨.empty, ()⟩).1.1 = .ok events' ∧
      events.length = 2 ∧ List.Forall₂ (Occurrence.Tightens 0.5) events events' := by
  have hf : ∀ t m, ((pure (pulse t) : StateM Unit _) m).1 = pulse t := fun _ _ => rfl
  have hthr : Settings.IsUsable 0.5 := by decide
  have hthr' : Settings.IsUsable 0.25 := by decide
  have hs : (⟨0.0⟩ : Epoch).IsFinite := by decide
  have hfin : (⟨2.0⟩ : Epoch).IsFinite := by decide
  obtain ⟨d₁, d₂, h₁, h₂, htightens⟩ := locate_withThreshold raised hf (by decide) hthr hthr'
    (by decide) hs hfin (by decide) ⟨.empty, ()⟩
  have hrun : ((d₁.locate (fun t => (pure (pulse t) : StateM Unit _)) ⟨0.0⟩ ⟨2.0⟩).run
      ⟨.empty, ()⟩).1.1 = .ok [⟨⟨0.5⟩, pulse ⟨0.5⟩, true, .proceed, none⟩,
        ⟨⟨2.0⟩, pulse ⟨2.0⟩, false, .proceed, none⟩] := by
    obtain rfl := Except.ok.inj h₁
    exact congrArg (fun r => r.1.1) run_locate_pulse
  have hrun' : ((d₂.locate (fun t => (pure (pulse t) : StateM Unit _)) ⟨0.0⟩ ⟨2.0⟩).run
      ⟨.empty, ()⟩).1.1 = .ok [⟨⟨0.25⟩, pulse ⟨0.25⟩, true, .proceed, none⟩,
        ⟨⟨1.75⟩, pulse ⟨1.75⟩, false, .proceed, none⟩] := by
    obtain rfl := Except.ok.inj h₂
    exact run_locate_pulse_quarter
  exact ⟨d₁, d₂, _, _, h₁, h₂, hrun, hrun', rfl,
    htightens _ _ hrun hrun' (by simp) (by simp)⟩

end Detector

end TrajectoryEvents
