import TrajectoryEvents.Proofs.Search.Crossing
import TrajectoryEvents.Proofs.Search.Grid
import TrajectoryEvents.Proofs.Search.Narrowing
import TrajectoryEvents.Proofs.Search.Run

/-!
# The events of a search are the crossings between its samples

A search that is completed without a decision to stop reports one event for every pair of
consecutive samples between which the value crosses zero, in order, and no other event. The event
lies in the interval that the two samples close.

## Main definitions

* `Sample`: a sample epoch with the value at it.
* `crossings`: the pairs of consecutive samples between which the value crosses zero.
* `Finding.Between`, `Resolves`: an event that belongs to such a pair.

## Main results

* `exists_between`: what there is to be found are the crossings.
* `pairwise_of_resolves`: the epochs of the events strictly increase.
* `Detector.locate_exact`: a completed search reports the crossings.
-/

namespace TrajectoryEvents

/-- A sample epoch and the value at it. -/
structure Sample where
  epoch : Epoch
  value : Float

/-- The pairs of consecutive samples between which the value crosses zero. -/
def crossings (points : List Sample) : List (Sample × Sample) :=
  (points.zip points.tail).filter fun ab => Crosses ab.1.value ab.2.value

/-- A finding that belongs to a pair of consecutive samples: it lies after the first one and not
after the second one, and the direction is the one away from the first value. -/
structure Finding.Between (ab : Sample × Sample) (x : Finding) : Prop where
  after : ab.1.epoch < x.epoch
  upTo : x.epoch ≤ ab.2.epoch
  increasing : x.increasing = decide (ab.1.value < 0.0)

/-- An event that belongs to a pair of consecutive samples of the trajectory `f`. -/
structure Resolves {S : Type} (f : Epoch → S) (ab : Sample × Sample) (event : Occurrence S) :
    Prop where
  after : ab.1.epoch < event.epoch
  upTo : event.epoch ≤ ab.2.epoch
  state : event.state = f event.epoch
  increasing : event.increasing = decide (ab.1.value < 0.0)
  reset : event.reset.isSome = true ↔ event.action = .resetState

/-! ### Crossings -/

theorem crossings_cons_cons (a b : Sample) (rest : List Sample) :
    crossings (a :: b :: rest) =
      if Crosses a.value b.value then (a, b) :: crossings (b :: rest)
      else crossings (b :: rest) := by
  simp [crossings, List.filter_cons]

/-! ### Findings -/

variable {g : Epoch → Except EventError Float} {settings : Settings}

/-- What there is to be found along sample epochs, if no failure is, are the crossings between the
samples at them. -/
theorem exists_between {ts : List Epoch} {a : Epoch} (value : Float)
    (hts : (a :: ts).IsChain Epoch.Precedes) (h : (outline g settings ts a value).failure = none) :
    ∃ points : List Sample, points.map Sample.epoch = ts ∧
      (∀ p ∈ points, g p.epoch = .ok p.value) ∧
      List.Forall₂ Finding.Between (crossings (⟨a, value⟩ :: points))
        (outline g settings ts a value).found := by
  induction ts generalizing a value with
  | nil => exact ⟨[], rfl, nofun, .nil⟩
  | cons b rest ih =>
    obtain ⟨hab, hrest⟩ := List.isChain_cons_cons.1 hts
    obtain ⟨next, hg, hlater, hround⟩ := outline_cons_cases h
    obtain ⟨points, hmap, hval, hfound⟩ := ih next hrest hlater
    refine ⟨⟨b, next⟩ :: points, by simp [hmap], ?_, ?_⟩
    · rintro p (_ | ⟨_, hp⟩)
      · exact hg
      · exact hval p hp
    rw [crossings_cons_cons]
    -- a round finds something exactly if the two samples are a crossing
    rcases hround with ⟨hc, heq⟩ | ⟨hc, epoch, hr, heq⟩
    · rw [if_neg hc, heq]
      exact hfound
    · obtain ⟨hafter, hupTo⟩ := narrow_between hab hr
      rw [if_pos hc, heq]
      exact .cons ⟨hafter, hupTo, decide_eq_decide.2 hc.lt_iff⟩ hfound

/-! ### Events -/

variable {S : Type} {f : Epoch → S}

/-- What the handler leaves of a finding between two samples resolves them. -/
theorem Finding.Between.resolves {ab : Sample × Sample} {x : Finding} {event : Occurrence S}
    (hx : x.Between ab) (hm : x.Matches f event) : Resolves f ab event where
  after := hm.epoch ▸ hx.after
  upTo := hm.epoch ▸ hx.upTo
  state := hm.epoch ▸ hm.state
  increasing := hm.increasing.trans hx.increasing
  reset := hm.reset

/-- Events that resolve the crossings between increasing samples strictly increase, and lie after
the first sample and not after the last. -/
theorem pairwise_of_resolves {a : Sample} {points : List Sample} {events : List (Occurrence S)}
    (hpoints : ((a :: points).map Sample.epoch).IsChain Epoch.Precedes)
    (h : List.Forall₂ (Resolves f) (crossings (a :: points)) events) :
    events.Pairwise (fun e e' => e.epoch < e'.epoch) ∧
      ∀ e ∈ events, a.epoch < e.epoch ∧ ∃ b ∈ points, e.epoch ≤ b.epoch := by
  induction points generalizing a events with
  | nil =>
    cases h
    exact ⟨.nil, nofun⟩
  | cons b rest ih =>
    obtain ⟨hab, hrest⟩ := List.isChain_cons_cons.1 hpoints
    rw [crossings_cons_cons] at h
    by_cases hc : Crosses a.value b.value
    · rw [if_pos hc] at h
      cases h with
      | @cons _ e _ later he hlater =>
        obtain ⟨hsorted, hbounds⟩ := ih hrest hlater
        refine ⟨.cons ?_ hsorted, ?_⟩
        -- the sample `b` separates this event from the later ones
        · intro e' he'
          exact Epoch.lt_of_le_of_lt he.upTo (hbounds e' he').1
        · rintro e' (_ | ⟨_, he'⟩)
          · exact ⟨he.after, b, List.mem_cons_self, he.upTo⟩
          · obtain ⟨hlt, c, hc, hle⟩ := hbounds e' he'
            exact ⟨Epoch.lt_trans hab.lt hlt, c, List.mem_cons_of_mem _ hc, hle⟩
    · rw [if_neg hc] at h
      obtain ⟨hsorted, hbounds⟩ := ih hrest h
      refine ⟨hsorted, ?_⟩
      intro e he
      obtain ⟨hlt, c, hc, hle⟩ := hbounds e he
      exact ⟨Epoch.lt_trans hab.lt hlt, c, List.mem_cons_of_mem _ hc, hle⟩

/-! ### Searches -/

namespace Detector

variable {ι κ τ : Type} [Indicator ι S] [Snapshot S] [CustomHandler κ S τ] [Initializable ι S τ]

/-- A completed search reports the crossings between its samples. Along a trajectory that is a
function `f` of the epoch, let a search of a finite interval be completed without a decision to
stop, and let `d'` be the detector as the search prepared it. Then `d'` has a value at every sample
epoch, and the events correspond, in order, to the pairs of consecutive samples between which this
value crosses zero; their epochs strictly increase and lie after the start of the interval and not
after its end. -/
theorem locate_exact {d d' : Detector ι κ} {trajectory : Epoch → StateM τ S}
    (hf : ∀ t m, (trajectory t m).1 = f t) {start finish : Epoch} (hs : start.IsFinite)
    (hfin : finish.IsFinite) (h : start < finish) {m m' : Memory τ} {events : List (Occurrence S)}
    (hrun : (d.locate trajectory start finish).run m = ((.ok events, d'), m'))
    (hstop : ∀ e ∈ events, e.action ≠ .stop) :
    ∃ points : List Sample,
      points.map Sample.epoch = samples d.settings.maxCheckInterval start finish ∧
      (∀ p ∈ points, d'.g (f p.epoch) = .ok p.value) ∧
      List.Forall₂ (Resolves f) (crossings points) events ∧
      events.Pairwise (fun e e' => e.epoch < e'.epoch) ∧
      ∀ e ∈ events, start < e.epoch ∧ e.epoch ≤ finish := by
  have hchain := isChain_precedes_samples d.settings.maxCheckInterval hfin hs
  have hle : ¬ finish ≤ start := (Epoch.Precedes.mk hs hfin h).not_le
  -- the findings of the outline stand between the crossings and the events
  obtain ⟨-, value, hvalue, hreported⟩ := exists_reported hf hle hrun
  obtain ⟨hfailure, hmatches⟩ := hreported.of_ok hstop
  obtain ⟨points, hmap, hvalues, hbetween⟩ := exists_between value hchain hfailure
  have hresolves : List.Forall₂ (Resolves f) (crossings (⟨start, value⟩ :: points)) events := by
    refine forall₂_comp ?_ hbetween hmatches
    exact fun _ _ _ => Finding.Between.resolves
  have hpoints : ((⟨start, value⟩ :: points : List Sample).map Sample.epoch) =
      samples d.settings.maxCheckInterval start finish := by simp [samples, hmap]
  obtain ⟨hsorted, hbounds⟩ := pairwise_of_resolves (hpoints ▸ hchain) hresolves
  refine ⟨_, hpoints, ?_, hresolves, hsorted, ?_⟩
  · rintro p (_ | ⟨_, hp⟩)
    · exact hvalue
    · exact hvalues p hp
  · intro e he
    obtain ⟨hlt, b, hb, hle⟩ := hbounds e he
    have hb' : b.epoch ∈ samplesAfter d.settings.maxCheckInterval finish start :=
      hmap ▸ List.mem_map_of_mem hb
    obtain ⟨hbf, -, hble⟩ := mem_samplesAfter _ hfin hs _ hb'
    exact ⟨hlt, Epoch.le_trans hle ((Epoch.le_iff_place hbf.isNaN hfin.isNaN).2 hble)⟩

/-! ### A pulse -/

/-- A state whose only component is raised for a while. -/
def pulse (t : Epoch) : TrajectoryState :=
  ⟨t, [if t < ⟨0.25⟩ then 0.0 else if t < ⟨1.7⟩ then 1.0 else 0.0]⟩

/-- A threshold has no NaN along the pulse, if it has none for the two values of the component. -/
theorem isNaN_threshold_pulse {level v : Float} {t : Epoch} (h0 : (0.0 - level).isNaN = false)
    (h1 : (1.0 - level).isNaN = false)
    (h : Indicator.g (⟨0, level⟩ : ComponentThreshold) (pulse t) = .ok v) : v.isNaN = false := by
  have hcases : pulse t = ⟨t, [0.0]⟩ ∨ pulse t = ⟨t, [1.0]⟩ := by
    unfold pulse
    split
    · exact .inl rfl
    split
    · exact .inr rfl
    · exact .inl rfl
  rcases hcases with ht | ht <;> rw [ht] at h <;> obtain rfl := Except.ok.inj h
  · exact h0
  · exact h1

/-- A detector that is positive while the component is raised. -/
def raised : Detector ComponentThreshold Empty :=
  .atomic ⟨0, 0.5⟩ ⟨1.0, 0.5, 100⟩ .continueOnEvent

/-- A detector that is positive while the component lies in a band. -/
def band : Detector ComponentThreshold Empty :=
  .boolean .min [raised, (Detector.atomic ⟨0, 1.5⟩ ⟨1.0, 0.5, 100⟩ .continueOnEvent).not]
    ⟨1.0, 0.5, 100⟩ .continueOnEvent

theorem samplesAfter_pulse : samplesAfter 1.0 ⟨2.0⟩ ⟨0.0⟩ = [⟨1.0⟩, ⟨2.0⟩] := by
  rw [samplesAfter_of_lt _ (by decide), show nextSample 1.0 ⟨2.0⟩ ⟨0.0⟩ = ⟨1.0⟩ by decide,
    samplesAfter_of_lt _ (by decide), show nextSample 1.0 ⟨2.0⟩ ⟨1.0⟩ = ⟨2.0⟩ by decide,
    samplesAfter_of_not_lt _ (by decide)]

/-- Both edges of the pulse are found. -/
theorem run_locate_pulse :
    (raised.locate (fun t => (pure (pulse t) : StateM Unit _)) ⟨0.0⟩ ⟨2.0⟩).run ⟨.empty, ()⟩ =
      ((.ok [⟨⟨0.5⟩, pulse ⟨0.5⟩, true, .proceed, none⟩,
        ⟨⟨2.0⟩, pulse ⟨2.0⟩, false, .proceed, none⟩], raised), ⟨.empty, ()⟩) :=
  run_locate_eq raised pulse (by decide) rfl samplesAfter_pulse

/-- The component enters the band as the pulse rises, and leaves it as the pulse falls. -/
theorem run_locate_band :
    (band.locate (fun t => (pure (pulse t) : StateM Unit _)) ⟨0.0⟩ ⟨2.0⟩).run ⟨.empty, ()⟩ =
      ((.ok [⟨⟨0.5⟩, pulse ⟨0.5⟩, true, .proceed, none⟩,
        ⟨⟨2.0⟩, pulse ⟨2.0⟩, false, .proceed, none⟩], band), ⟨.empty, ()⟩) :=
  run_locate_eq band pulse (by decide) rfl samplesAfter_pulse

/-- The two edges of the pulse, one after the other. -/
theorem locate_exact_pulse :
    ∃ points : List Sample, points.map Sample.epoch = samples 1.0 ⟨0.0⟩ ⟨2.0⟩ ∧
      (∀ p ∈ points, raised.g (pulse p.epoch) = .ok p.value) ∧
      List.Forall₂ (Resolves pulse) (crossings points)
        [⟨⟨0.5⟩, pulse ⟨0.5⟩, true, .proceed, none⟩,
          ⟨⟨2.0⟩, pulse ⟨2.0⟩, false, .proceed, none⟩] := by
  have hf : ∀ t m, ((pure (pulse t) : StateM Unit _) m).1 = pulse t := fun _ _ => rfl
  have h := locate_exact hf (by decide) (by decide) (by decide) run_locate_pulse (by simp)
  obtain ⟨points, hmap, hvalues, hresolves, -⟩ := h
  exact ⟨points, hmap, hvalues, hresolves⟩

end Detector

end TrajectoryEvents
