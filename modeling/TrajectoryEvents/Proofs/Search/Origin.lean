import TrajectoryEvents.Proofs.Detector.Passing
import TrajectoryEvents.Proofs.Search.Exactness

/-!
# Every event comes from a leaf

The early end of a bracket is an epoch at which the value has been asked for, and the value passes
zero from there to the late end. A bisection keeps this, so that an event is traced back to an epoch
from which the detector passes zero; then one of its leaves does.

## Main definitions

* `Bracket.Passing`: a bracket between whose ends the value passes zero.
* `Bracket.Reached`: a bracket that a bisection reaches. Halving preserves this.
* `Stage`: two epochs of an interval, a finite duration apart.
* `Origin`: an epoch from which an event is traced.

## Main results

* `Bracket.Passing.half`, `Bracket.Reached.half`: in the half of a bracket that is kept, the value
  passes zero as well, and the bisection has looked at its early end.
* `Bracket.Passing.exists_origin`: where a bisection ends, the value passes zero from an epoch at
  which the bisection looked.
* `Course.exists_origin`: the same along a scan.
* `Detector.locate_origin`: every event comes from a leaf.
-/

namespace TrajectoryEvents

open Binary64

/-! ### Brackets -/

section Values

variable {up : Bool} {v w x : Float}

/-- A value that passes zero passes it on one side of a number in between, unless this is zero. -/
theorem Passes.split (h : Passes up v w) (hx : x.isNaN = false) (h0 : ¬ (x == 0.0) = true) :
    (decide (0.0 < x) = decide (0.0 < v) → Passes up x w) ∧
      (¬ decide (0.0 < x) = decide (0.0 < v) → Passes up v x) := by
  rw [beq_zero_iff] at h0
  rw [decide_eq_decide, zero_lt_iff, zero_lt_iff]
  cases up
  · rw [passes_false] at h ⊢
    rw [passes_false]
    grind
  · rw [passes_true] at h ⊢
    rw [passes_true]
    grind

/-- A value that passes zero also passes it if it ends there. -/
theorem Passes.to_zero (h : Passes up v w) (h0 : (x == 0.0) = true) : Passes up v x := by
  obtain ⟨hx, h0⟩ := beq_zero_iff.1 h0
  cases up
  · exact passes_false.2 ⟨(passes_false.1 h).1, hx, h0.le⟩
  · exact passes_true.2 ⟨(passes_true.1 h).1, hx, h0.ge⟩

/-- A value that crosses zero passes it in the direction in which it goes. -/
theorem Crosses.passes (h : Crosses v w) : Passes (decide (v < w)) v w := by
  have hlt := h.lt_iff
  rcases h with ⟨hv, hw⟩ | ⟨hv, hw⟩
  · rw [decide_eq_true (hlt.2 hv)]
    exact ⟨hv, hw⟩
  -- a value that comes from above does not go up
  · have hnot : ¬ v < 0.0 := by
      rw [lt_zero_iff]
      exact fun hneg => (zero_lt_iff.1 hv).2.not_gt hneg.2
    rw [decide_eq_false (mt hlt.1 hnot)]
    exact ⟨hv, hw⟩

end Values

namespace Bracket

variable {g : Epoch → Except EventError Float} {up : Bool} {b : Bracket}

/-- A bracket between whose ends the value passes zero. -/
structure Passing (g : Epoch → Except EventError Float) (up : Bool) (b : Bracket) : Prop where
  early : g b.early = .ok b.earlyValue
  late : ∃ w, g b.late = .ok w ∧ Passes up b.earlyValue w

/-- The half of a bracket that is kept has a value that passes zero as well. -/
theorem Passing.half (h : b.Passing g up) {v : Float} (hv : g b.midpoint = .ok v)
    (hn : v.isNaN = false) (h0 : ¬ (v == 0.0) = true) : (b.half v).Passing g up := by
  obtain ⟨w, hw, hpass⟩ := h.late
  obtain ⟨hsame, hother⟩ := hpass.split hn h0
  unfold Bracket.half
  by_cases hs : decide (0.0 < v) = decide (0.0 < b.earlyValue)
  · rw [if_pos hs]
    exact ⟨hv, w, hw, hsame hs⟩
  · rw [if_neg hs]
    exact ⟨h.early, v, hv, hother hs⟩

/-- A bracket that a bisection of the bracket `outer` reaches. At its early end the bisection has
looked, unless it is still the early end of `outer`. -/
structure Reached (g : Epoch → Except EventError Float) (threshold : Float) (n : ℕ) (up : Bool)
    (outer b : Bracket) : Prop where
  inside : outer.Inside b
  passing : b.Passing g up
  looked : b.early = outer.early ∨ b.early ∈ midpoints g threshold n outer

variable {threshold : Float} {n : ℕ} {outer : Bracket} {e : Epoch}

/-- The half of a bracket that is kept is reached as well. -/
theorem Reached.half (h : Reached g threshold n up outer b)
    (hm : b.midpoint ∈ midpoints g threshold n outer) (ht : ¬ b.IsTight) {v : Float}
    (hv : g b.midpoint = .ok v) (hn : v.isNaN = false) (h0 : ¬ (v == 0.0) = true) :
    Reached g threshold n up outer (b.half v) where
  inside := h.inside.half ht v
  passing := h.passing.half hv hn h0
  looked := by
    unfold Bracket.half
    split
    · exact .inr hm
    · exact h.looked

/-- To the epoch that a bracket in the end determines, the value passes zero from the early end of
the bracket. The two epochs are close, unless the value ends at zero. -/
theorem Reached.passes (h : Reached g threshold n up outer b)
    (hb : outer.early.Precedes outer.late) (hd : outer.width.isFinite = true)
    (hs : b.Settles g threshold e) :
    b.early < e ∧ ∃ v w, g b.early = .ok v ∧ g e = .ok w ∧ Passes up v w ∧
      (¬ (w == 0.0) = true → e.durationFrom b.early ≤ threshold ∨ b.early.Adjacent e) := by
  obtain ⟨hp, hearly, hlate⟩ := h.inside
  obtain ⟨w, hw, hpass⟩ := h.passing.late
  cases hs with
  | narrow hnarrow => exact ⟨hp.lt, _, w, h.passing.early, hw, hpass, fun _ => .inl hnarrow⟩
  | tight ht =>
    have hd' : b.width.isFinite = true :=
      Epoch.isFinite_durationFrom hb.left hb.right hp.left hp.right hearly hlate hp.place_lt.le hd
    have hadj := (Epoch.adjacent_iff hp.left.isNaN hp.right.isNaN).2 (ht.place_late hp hd')
    exact ⟨hp.lt, _, w, h.passing.early, hw, hpass, fun _ => .inr hadj⟩
  | zero ht hv h0 =>
    obtain ⟨h1, -⟩ := midpoint_between hp ht
    exact ⟨h1.lt, _, _, h.passing.early, hv, hpass.to_zero h0, fun hne => absurd h0 hne⟩

/-- Where a bisection ends, the value passes zero from an epoch at which the bisection looked, or
from the early end of its bracket. -/
theorem Passing.exists_origin (h : b.Passing g up) (hb : b.early.Precedes b.late)
    (hd : b.width.isFinite = true)
    (hnum : ∀ t, b.early < t → t ≤ b.late → ∀ v, g t = .ok v → v.isNaN = false)
    {permitted : UInt64} (hn : narrow g threshold permitted n b = .ok e) :
    ∃ p, (p = b.early ∨ p ∈ midpoints g threshold n b) ∧ b.early ≤ p ∧ p < e ∧
      ∃ v w, g p = .ok v ∧ g e = .ok w ∧ Passes up v w ∧
        (¬ (w == 0.0) = true → e.durationFrom p ≤ threshold ∨ p.Adjacent e) := by
  have hstep : ∀ b' v, b'.midpoint ∈ midpoints g threshold n b →
      Reached g threshold n up b b' → ¬ b'.IsTight → g b'.midpoint = .ok v →
      ¬ (v == 0.0) = true → Reached g threshold n up b (b'.half v) := by
    intro b' v hm hreached ht hv h0
    obtain ⟨h1, h2⟩ := midpoint_between hreached.inside.precedes ht
    obtain ⟨hlt, hle⟩ := hreached.inside.between hb h1.lt h2.le
    exact hreached.half hm ht hv (hnum _ hlt hle v hv) h0
  obtain ⟨b', hreached, hs⟩ := exists_settles hstep ⟨.refl hb, h, .inl rfl⟩ hn
  have hp := hreached.inside.precedes
  have hle : b.early ≤ b'.early :=
    (Epoch.le_iff_place hb.left.isNaN hp.left.isNaN).2 hreached.inside.early
  exact ⟨b'.early, hreached.looked, hle, hreached.passes hb hd hs⟩

end Bracket

/-! ### Scans -/

variable {σ S : Type}

/-- An epoch from which an event between the epochs `a` and `b` is traced: the value passes zero
from there to the event, in the direction of the event. The two epochs are within the threshold or
next to each other, unless the value is zero at the event. -/
structure Origin (f : Epoch → S) (g : S → Except EventError Float) (threshold : Float)
    (a b : Epoch) (event : Occurrence S) (p : Epoch) : Prop where
  after : a ≤ p
  before : p < event.epoch
  upTo : event.epoch ≤ b
  passes : ∃ v w, g (f p) = .ok v ∧ g (f event.epoch) = .ok w ∧ Passes event.increasing v w ∧
    (¬ (w == 0.0) = true →
      event.epoch.durationFrom p ≤ threshold ∨ p.Adjacent event.epoch)

/-- Two epochs of an interval, one after the other, a finite duration apart. -/
structure Stage (start finish a b : Epoch) : Prop where
  precedes : a.Precedes b
  isFinite : (b.durationFrom a).isFinite = true
  after : start ≤ a
  upTo : b ≤ finish

section Runs

variable {p : Probe σ S} {f : Epoch → S} {g : S → Except EventError Float} {settings : Settings}
  {start finish : Epoch} (hnum : ∀ t, start ≤ t → t ≤ finish → ∀ v, g (f t) = .ok v →
    v.isNaN = false)
include hnum

/-- An event that is reported of a bracket has an origin in it: the early end, or an epoch at which
the bisection looks. -/
theorem Refines.exists_origin {a b : Epoch} {v w : Float} {calls : List (Call S)} {e : Epoch}
    (hab : Stage start finish a b) (hv : g (f a) = .ok v)
    (hw : g (f b) = .ok w) (hc : Crosses v w) (h : Refines f g settings ⟨a, v, b⟩ (.ok e) calls)
    {event : Occurrence S} (hm : Finding.Matches f ⟨e, decide (v < w)⟩ event) :
    ∃ q, Origin f g settings.threshold a b event q ∧ (q = a ∨ look f g q <:+: calls) := by
  have hpassing : Bracket.Passing (fun t => g (f t)) (decide (v < w)) ⟨a, v, b⟩ :=
    ⟨hv, w, hw, hc.passes⟩
  obtain ⟨q, hlooked, hafter, hbefore, hpass⟩ :=
    hpassing.exists_origin hab.precedes hab.isFinite (fun t hat htb => hnum t
      (Epoch.le_trans hab.after (Epoch.le_of_lt hat)) (Epoch.le_trans htb hab.upTo)) h.answer
  have hupTo := (narrow_between (b := ⟨a, v, b⟩) hab.precedes h.answer).2
  refine ⟨q, ⟨hafter, ?_, ?_, ?_⟩, hlooked.imp_right h.calls.look_infix⟩
  · rwa [hm.epoch]
  · rwa [hm.epoch]
  · rwa [hm.epoch, hm.increasing]

/-- Every event of a scan has an origin, between two consecutive samples: the first sample, or an
epoch at which the scan looks. -/
theorem Course.exists_origin {ts : List Epoch} {a : Epoch} {v : Float} {calls : List (Call S)}
    {r : Except EventError (List (Occurrence S))} (h : Course p f g settings ts a v calls r)
    (hts : (a :: ts).IsChain (Stage start finish))
    (hv : g (f a) = .ok v) {events : List (Occurrence S)} (hr : r = .ok events) :
    ∀ event ∈ events, ∃ a' b', [a', b'] <:+: a :: ts ∧
      ∃ q, Origin f g settings.threshold a' b' event q ∧ (q = a ∨ look f g q <:+: calls) := by
  induction h generalizing events with
  | done =>
    obtain rfl := Except.ok.inj hr
    nofun
  | failed => cases hr
  | unresolved => cases hr
  | quiet value _ _ ih =>
    intro event he
    obtain ⟨a', b', hsamples, q, hq, hlooked⟩ :=
      ih (List.isChain_cons_cons.1 hts).2 value hr event he
    refine ⟨a', b', hsamples.trans (List.suffix_cons _ _).isInfix, q, hq, .inr ?_⟩
    rcases hlooked with rfl | hlooked
    · exact (List.prefix_append _ _).isInfix
    · exact hlooked.trans (List.suffix_append _ _).isInfix
  | stopped value crosses refines reports =>
    obtain rfl := Except.ok.inj hr
    obtain ⟨hab, -⟩ := List.isChain_cons_cons.1 hts
    rintro event (_ | ⟨_, ⟨⟩⟩)
    obtain ⟨q, hq, hlooked⟩ :=
      refines.exists_origin hnum hab hv value crosses reports.matches
    exact ⟨_, _, ⟨[], _, rfl⟩, q, hq, hlooked.imp_right (·.trans (List.infix_append' _ _ _))⟩
  | @found b rest a v w calls epoch event later r value crosses refines reports _ _ ih =>
    obtain ⟨hab, hrest⟩ := List.isChain_cons_cons.1 hts
    cases r with
    | error => cases hr
    | ok events =>
      obtain rfl := Except.ok.inj hr
      rintro event' (_ | ⟨_, he⟩)
      · obtain ⟨q, hq, hlooked⟩ :=
          refines.exists_origin hnum hab hv value crosses reports.matches
        exact ⟨_, _, ⟨[], _, rfl⟩, q, hq, hlooked.imp_right (·.trans (List.infix_append' _ _ _))⟩
      · obtain ⟨a', b', hsamples, q, hq, hlooked⟩ := ih hrest value rfl event' he
        refine ⟨a', b', hsamples.trans (List.suffix_cons _ _).isInfix, q, hq, .inr ?_⟩
        rcases hlooked with rfl | hlooked
        · exact (List.prefix_append _ _).isInfix
        · have hlater : later <:+ look f g b ++ (calls ++ (event.calls ++ later)) :=
            ((List.suffix_append _ _).trans (List.suffix_append _ _)).trans
              (List.suffix_append _ _)
          exact hlooked.trans hlater.isInfix

end Runs

/-! ### Searches -/

/-- Consecutive samples of an interval of finite duration are a finite duration apart. -/
theorem isChain_stage_samples (step : Float) {start finish : Epoch}
    (h : start.Precedes finish) (hd : (finish.durationFrom start).isFinite = true) :
    (samples step start finish).IsChain (Stage start finish) := by
  have hbounds : ∀ t ∈ samples step start finish,
      start.place ≤ t.place ∧ t.place ≤ finish.place := by
    rintro t (_ | ⟨_, ht⟩)
    · exact ⟨le_rfl, h.place_lt.le⟩
    · obtain ⟨-, hlt, hle⟩ := mem_samplesAfter step h.right h.left t ht
      exact ⟨hlt.le, hle⟩
  refine (isChain_precedes_samples step h.right h.left).imp_of_mem_imp fun a b ha hb hab => ?_
  have hafter := (hbounds a ha).1
  have hupTo := (hbounds b hb).2
  exact {
    precedes := hab
    isFinite := Epoch.isFinite_durationFrom h.left h.right hab.left hab.right hafter hupTo
      hab.place_lt.le hd
    after := (Epoch.le_iff_place h.left.isNaN hab.left.isNaN).2 hafter
    upTo := (Epoch.le_iff_place hab.right.isNaN h.right.isNaN).2 hupTo }

namespace Detector

variable {ι κ τ : Type} [Indicator ι S] [Snapshot S] [CustomHandler κ S τ] [Initializable ι S τ]

/-- Every event comes from a leaf. Along a trajectory that is a function `f` of the epoch, let a
search of a finite interval of finite duration be completed, and let `d'` be the detector as the
search prepared it, the leaves of which are never NaN in the interval. Then every event lies
between two consecutive samples `a` and `b`, after `a` and not after `b`, and there is an epoch `p`
before it and not before `a` such that

* the search looked at `p`,
* a leaf passes zero from `p` to the event, in the direction of the event if there is an even number
  of negations above the leaf, and in the other one if there is an odd number,
* and so does the value of the detector, in the direction of the event; unless it is zero at the
  event, `p` is within the threshold of the event or no epoch lies between them. -/
theorem locate_origin {d d' : Detector ι κ} {trajectory : Epoch → StateM τ S} {f : Epoch → S}
    (hf : ∀ t m, (trajectory t m).1 = f t) {start finish : Epoch} (hs : start.IsFinite)
    (hfin : finish.IsFinite) (h : start < finish)
    (hd : (finish.durationFrom start).isFinite = true) {m m' : Memory τ}
    {events : List (Occurrence S)}
    (hrun : (d.locate trajectory start finish).run m = ((.ok events, d'), m'))
    (hnum : ∀ t, start ≤ t → t ≤ finish → d'.Numbers (f t)) :
    ∀ event ∈ events, ∃ a b,
      [a, b] <:+: samples d.settings.maxCheckInterval start finish ∧
      ∃ p, Origin f d'.g d.settings.threshold a b event p ∧
        look f d'.g p <:+: d.calls trajectory start finish m ∧
        d'.LeafPasses event.increasing (f p) (f event.epoch) := by
  have hprecedes : start.Precedes finish := ⟨hs, hfin, h⟩
  have hsearch := d.searches_locate hf hprecedes.not_le m
  simp only [prepared, hrun] at hsearch
  generalize d.calls trajectory start finish m = calls at hsearch
  cases hsearch with
  | @scanned v calls _ value course =>
    have hsamples := isChain_stage_samples d.settings.maxCheckInterval hprecedes hd
    intro event he
    obtain ⟨a, b, hab, p, hp, hlooked⟩ := course.exists_origin
      (fun t hat htb v hv => (hnum t hat htb).isNaN_g hv) hsamples value rfl event he
    -- the origin and the event lie in the interval, where the leaves are numbers
    have hpair := List.IsChain.infix hsamples hab
    have hstage := List.isChain_pair.1 hpair
    have hstart := Epoch.le_trans hstage.after hp.after
    have hfinish := Epoch.le_trans hp.upTo hstage.upTo
    have hnump := hnum p hstart (Epoch.le_trans (Epoch.le_of_lt hp.before) hfinish)
    have hnume := hnum event.epoch (Epoch.le_trans hstart (Epoch.le_of_lt hp.before)) hfinish
    -- the detector passes zero from the origin to the event, hence one of its leaves does
    obtain ⟨v, w, hv, hw, hpass, -⟩ := hp.passes
    refine ⟨a, b, hab, p, hp, ?_, leafPasses_of_passes hnump hnume hv hw hpass⟩
    rcases hlooked with rfl | hlooked
    · exact (List.prefix_append _ _).isInfix
    · exact hlooked.trans (List.suffix_append _ _).isInfix

/-! ### A band -/

/-- Along the pulse, both thresholds of the band are numbers. -/
theorem numbers_band (t : Epoch) : band.Numbers (pulse t) := by
  have hmem : ∀ i ∈ band.leaves, i = ⟨0, 0.5⟩ ∨ i = ⟨0, 1.5⟩ := by
    simp [band, raised, leaves, leavesAll, Detector.not]
  intro i hi x hx
  rcases hmem i hi with rfl | rfl
  · exact isNaN_threshold_pulse (by decide) (by decide) hx
  · exact isNaN_threshold_pulse (by decide) (by decide) hx

/-- The component reaches the band at its lower end, with the threshold `0.5` of it. -/
theorem locate_origin_band :
    ∃ a b, [a, b] <:+: samples 1.0 ⟨0.0⟩ ⟨2.0⟩ ∧
      ∃ p, Origin pulse band.g 0.5 a b ⟨⟨0.5⟩, pulse ⟨0.5⟩, true, .proceed, none⟩ p ∧
        look pulse band.g p <:+:
          band.calls (fun t => (pure (pulse t) : StateM Unit _)) ⟨0.0⟩ ⟨2.0⟩ ⟨.empty, ()⟩ ∧
        band.LeafPasses true (pulse p) (pulse ⟨0.5⟩) := by
  have hf : ∀ t m, ((pure (pulse t) : StateM Unit _) m).1 = pulse t := fun _ _ => rfl
  exact locate_origin hf (by decide) (by decide) (by decide) (by decide) run_locate_band
    (fun t _ _ => numbers_band t) _ List.mem_cons_self

end Detector

end TrajectoryEvents
