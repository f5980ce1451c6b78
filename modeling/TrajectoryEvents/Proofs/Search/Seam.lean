import TrajectoryEvents.Proofs.Detector.NormalForm
import TrajectoryEvents.Proofs.Search.Alternation
import TrajectoryEvents.Proofs.Search.Splitting

/-!
# Adjacent searches fit together

If an interval is cut at one of its samples, then the searches of the two parts find what the search
of the whole finds. No event is lost at the seam and none is reported twice: a zero there closes the
last interval of the first search, and opens none in the second one.

The three searches have to agree on what they ask. They prepare the detector for different targets
and from different memories, so its values must not depend on the preparation, nor the decisions of
its handler on what the handler remembers.

## Main definitions

* `IgnoresInit`: an indicator whose values do not depend on its preparation.
* `Handler.Steady`: a handler that decides from the event alone and never stops.

## Main results

* `outline_append`: what is found along a list of samples, and then along another.
* `Detector.searches_locate_unprepared`: a detector that ignores its preparation is asked the same
  by every search.
* `Detector.locate_append`: adjacent searches fit together.
-/

namespace TrajectoryEvents

variable {σ S : Type}

/-! ### Outlines -/

section Outlines

variable {g : Epoch → Except EventError Float} {settings : Settings} {ts : List Epoch} {a : Epoch}
  {v : Float}

/-- Behind a failure nothing is found. -/
theorem outline_append_of_failure {e : EventError} (ts' : List Epoch)
    (h : (outline g settings ts a v).failure = some e) :
    outline g settings (ts ++ ts') a v = outline g settings ts a v := by
  induction ts generalizing a v with
  | nil => cases h
  | cons b rest ih =>
    simp only [List.cons_append, outline] at h ⊢
    cases hg : g b with
    | error e => rfl
    | ok next =>
      simp only [hg] at h ⊢
      by_cases hc : Crosses v next
      · simp only [if_pos hc] at h ⊢
        cases hr : refined g settings ⟨a, v, b⟩ with
        | error e => rfl
        | ok epoch =>
          simp only [hr] at h ⊢
          rw [ih h]
      · simp only [if_neg hc] at h ⊢
        exact ih h

/-- What is found along a list of samples without a failure, and then along another. -/
theorem outline_append {mid : Epoch} (hv : g a = .ok v) (hlast : (a :: ts).getLast? = some mid)
    (h : (outline g settings ts a v).failure = none) (ts' : List Epoch) :
    ∃ w, g mid = .ok w ∧ outline g settings (ts ++ ts') a v =
      ⟨(outline g settings ts a v).found ++ (outline g settings ts' mid w).found,
        (outline g settings ts' mid w).failure⟩ := by
  induction ts generalizing a v with
  | nil =>
    obtain rfl := Option.some.inj hlast
    exact ⟨v, hv, rfl⟩
  | cons b rest ih =>
    rw [List.getLast?_cons_cons] at hlast
    obtain ⟨next, hg, hlater, hround⟩ := outline_cons_cases h
    obtain ⟨w, hw, hrest⟩ := ih hg hlast hlater
    refine ⟨w, hw, ?_⟩
    rcases hround with ⟨hc, heq⟩ | ⟨hc, epoch, hr, heq⟩
    · rw [heq]
      simp only [List.cons_append, outline, hg, if_neg hc, hrest]
    · rw [heq]
      simp only [List.cons_append, outline, hg, if_pos hc, hr, hrest]

end Outlines

/-! ### Searches -/

variable {p : Probe σ S} {f : Epoch → S} {g : S → Except EventError Float} {settings : Settings}

/-- If the handler has a fixed answer to every finding, then a search has a fixed answer as well. -/
theorem Searches.eq_answer {start : Epoch} {ts : List Epoch} {calls : List (Call S)}
    {r : Except EventError (List (Occurrence S))} (h : Searches p f g settings start ts calls r)
    {report : Finding → Occurrence S} (hp : p.Answers f report) :
    r = (g (f start)).bind fun v =>
      (outline (fun t => g (f t)) settings ts start v).answer report := by
  cases h with
  | failed value => rw [value]; rfl
  | scanned value course => rw [value]; exact course.eq_answer hp

/-- A search along two lists of samples is one along the first list, followed by one along the
second. -/
theorem Searches.append {start mid : Epoch} {ts ts' : List Epoch}
    {calls calls₁ calls₂ : List (Call S)} {r r₁ r₂ : Except EventError (List (Occurrence S))}
    {report : Finding → Occurrence S} (hp : p.Answers f report)
    (hlast : (start :: ts).getLast? = some mid)
    (h : Searches p f g settings start (ts ++ ts') calls r)
    (h₁ : Searches p f g settings start ts calls₁ r₁)
    (h₂ : Searches p f g settings mid ts' calls₂ r₂) (events : List (Occurrence S)) :
    r = .ok events ↔
      ∃ events₁ events₂, r₁ = .ok events₁ ∧ r₂ = .ok events₂ ∧ events = events₁ ++ events₂ := by
  rw [h.eq_answer hp, h₁.eq_answer hp, h₂.eq_answer hp]
  cases hv : g (f start) with
  | error e => simp [Except.bind]
  | ok v =>
    simp only [Except.bind]
    cases hfailure : (outline (fun t => g (f t)) settings ts start v).failure with
    -- a failure up to the seam is one of the whole search
    | some e => simp [outline_append_of_failure ts' hfailure, Outline.answer, hfailure]
    | none =>
      obtain ⟨w, hw, happend⟩ := outline_append hv hlast hfailure ts'
      rw [happend, hw]
      simp only [Outline.answer, hfailure]
      cases (outline (fun t => g (f t)) settings ts' mid w).failure with
      | some e => simp
      | none => simp [eq_comm]

/-! ### Independence of the preparation -/

/-- An indicator whose values do not depend on its preparation. -/
def IgnoresInit {ι : Type} (S τ : Type) [Indicator ι S] [Initializable ι S τ] (i : ι) : Prop :=
  ∀ (s : S) (target : Epoch) (m : τ) (x : S),
    Indicator.g (Initializable.init i s target m).1 x = Indicator.g i x

/-- A handler that decides from the event alone and never stops: what it remembers has no influence
on the decision and on the replacement state. -/
structure Handler.Steady {κ : Type} (S τ : Type) [Snapshot S] [CustomHandler κ S τ]
    (h : Handler κ) : Prop where
  decision : ∀ (s : S) (detector : DetectorView S) (increasing : Bool) (m m' : Memory τ),
    (h.eventOccurred s detector increasing m).1 = (h.eventOccurred s detector increasing m').1
  replacement : ∀ (detector : DetectorView S) (s : S) (m m' : Memory τ),
    (h.resetState detector s m).1 = (h.resetState detector s m').1
  goes : ∀ (s : S) (detector : DetectorView S) (increasing : Bool) (m : Memory τ),
    (h.eventOccurred s detector increasing m).1 ≠ .stop

namespace Detector

variable {ι κ τ : Type} [Indicator ι S] [CustomHandler κ S τ] [Initializable ι S τ]

/-- If no leaf depends on its preparation, then the detector does not. -/
theorem g_init {d : Detector ι κ} (hd : ∀ i ∈ d.leaves, IgnoresInit S τ i) (s : S)
    (target : Epoch) (m : Memory τ) : ((d.init s target).run m).1.g = (d.g : S → _) := by
  funext x
  induction d generalizing m with
  | atomic i st h => exact hd i List.mem_cons_self s target _ x
  | boolean r ds st h ih =>
    rw [leaves] at hd
    have hvalues : ∀ m : Memory τ,
        values ((initAll ds s target).run m).1 x = values ds x := by
      induction ds with
      | nil => exact fun _ => rfl
      | cons d ds ihds =>
        intro m
        rw [leavesAll] at hd
        rw [run_initAll_cons, values, values, ih d List.mem_cons_self
            (fun i hi => hd i (List.mem_append_left _ hi)),
          ihds (fun d hd => ih d (List.mem_cons_of_mem _ hd))
            fun i hi => hd i (List.mem_append_right _ hi)]
    rw [run_init_boolean, g, g, hvalues]
  | negate d st h ih =>
    change (do let v ← ((d.init s target).run _).1.g x; return -v) = _
    rw [ih hd, g]

variable [Snapshot S]

omit [Initializable ι S τ] in
/-- A detector with a steady handler has a fixed answer to every finding: the one that it would give
in any memory `m₀`. -/
theorem answers_probe {d : Detector ι κ} (hd : d.handler.Steady S τ)
    (trajectory : Epoch → StateM τ S) (f : Epoch → S) (m₀ : Memory τ) :
    (d.probe trajectory).Answers f fun x =>
      ((d.probe trajectory).report x.epoch (f x.epoch) x.increasing m₀).1 := by
  rintro x _ ⟨m, rfl⟩
  have hdecision := hd.decision (f x.epoch) d.view x.increasing m m₀
  have hgoes := hd.goes (f x.epoch) d.view x.increasing m
  simp only [Probe.run_report, probe, hdecision] at hgoes ⊢
  by_cases h : (d.handler.eventOccurred (f x.epoch) d.view x.increasing m₀).1 = .resetState
  · rw [if_pos h, if_pos h]
    exact ⟨by rw [hd.replacement], nofun⟩
  · rw [if_neg h, if_neg h]
    exact ⟨rfl, hgoes⟩

section Locate

variable {d : Detector ι κ} (hd : ∀ i ∈ d.leaves, IgnoresInit S τ i)
  {trajectory : Epoch → StateM τ S} {f : Epoch → S} (hf : ∀ t m, (trajectory t m).1 = f t)
  {start finish : Epoch}
include hd hf

/-- A detector that ignores its preparation is asked the same by every search. -/
theorem searches_locate_unprepared (h : ¬ finish ≤ start) (m : Memory τ) :
    Searches (d.probe trajectory) f d.g d.settings start
      (samplesAfter d.settings.maxCheckInterval finish start)
      (d.calls trajectory start finish m) ((d.locate trajectory start finish).run m).1.1 := by
  have hg : (d.prepared trajectory start finish m).g = (d.g : S → _) := by
    rw [d.prepared_eq hf h m]
    exact g_init hd _ _ _
  have hprobe : (d.prepared trajectory start finish m).probe trajectory = d.probe trajectory := by
    simp only [probe, view, hg, d.handler_prepared hf, d.settings_prepared]
  have hsearch := d.searches_locate hf h m
  rwa [hg, hprobe] at hsearch

/-- Adjacent searches fit together. Let the indicators of a detector not depend on their
preparation, let its handler decide from the event alone and never stop, and let the trajectory be a
function of the epoch. If a finite interval is cut at one of its samples, then the search of the
whole finds events exactly if the searches of both parts do, each from a memory of its own; it finds
those of the first part, followed by those of the second. -/
theorem locate_append (hh : d.handler.Steady S τ) (hs : start.IsFinite) (hfin : finish.IsFinite)
    {mid : Epoch} (hmid : mid ∈ samples d.settings.maxCheckInterval start finish)
    (h₁ : start < mid) (h₂ : mid < finish) (m m₁ m₂ : Memory τ) (events : List (Occurrence S)) :
    ((d.locate trajectory start finish).run m).1.1 = .ok events ↔
      ∃ events₁ events₂, ((d.locate trajectory start mid).run m₁).1.1 = .ok events₁ ∧
        ((d.locate trajectory mid finish).run m₂).1.1 = .ok events₂ ∧
        events = events₁ ++ events₂ := by
  have hmem : mid ∈ samplesAfter d.settings.maxCheckInterval finish start := by
    rcases List.mem_cons.1 hmid with rfl | hmem
    · rw [Epoch.lt_iff_place hs.isNaN hs.isNaN] at h₁
      omega
    · exact hmem
  obtain ⟨hmf, -⟩ := mem_samplesAfter _ hfin hs mid hmem
  have hwhole := searches_locate_unprepared hd hf
    (Epoch.Precedes.mk hs hfin (Epoch.lt_trans h₁ h₂)).not_le m
  rw [samplesAfter_split hs hfin hmem h₂] at hwhole
  exact Searches.append (answers_probe hh trajectory f m) (getLast?_samples _ hmf hs h₁) hwhole
    (searches_locate_unprepared hd hf (Epoch.Precedes.mk hs hmf h₁).not_le m₁)
    (searches_locate_unprepared hd hf (Epoch.Precedes.mk hmf hfin h₂).not_le m₂) events

end Locate

/-- A handler that always continues is steady. -/
theorem steady_continueOnEvent : (Handler.continueOnEvent : Handler κ).Steady S τ where
  decision _ _ _ _ _ := rfl
  replacement _ _ _ _ := rfl
  goes _ _ _ _ := nofun

/-- The component touches the threshold exactly at the seam. It is found to rise there once, and
once more after it. -/
theorem locate_append_touch :
    (raised.g (touch ⟨1.0⟩) = .ok 0.0) ∧
    ∃ events₁ events₂,
      ((raised.locate (fun t => (pure (touch t) : StateM Unit _)) ⟨0.0⟩ ⟨1.0⟩).run
        ⟨.empty, ()⟩).1.1 = .ok events₁ ∧
      ((raised.locate (fun t => (pure (touch t) : StateM Unit _)) ⟨1.0⟩ ⟨3.0⟩).run
        ⟨.empty, ()⟩).1.1 = .ok events₂ ∧
      [⟨⟨1.0⟩, touch ⟨1.0⟩, true, .proceed, none⟩, ⟨⟨2.5⟩, touch ⟨2.5⟩, true, .proceed, none⟩] =
        events₁ ++ events₂ := by
  refine ⟨rfl, ?_⟩
  have hf : ∀ t m, ((pure (touch t) : StateM Unit _) m).1 = touch t := fun _ _ => rfl
  have hd : ∀ i ∈ raised.leaves, IgnoresInit TrajectoryState Unit i := fun _ _ _ _ _ _ => rfl
  have hmid : (⟨1.0⟩ : Epoch) ∈ samples 1.0 ⟨0.0⟩ ⟨3.0⟩ := by
    rw [samples, samplesAfter_touch]
    exact List.mem_cons_of_mem _ List.mem_cons_self
  refine (locate_append hd hf steady_continueOnEvent (by decide) (by decide) hmid (by decide)
    (by decide) ⟨.empty, ()⟩ ⟨.empty, ()⟩ ⟨.empty, ()⟩ _).1 ?_
  exact congrArg (fun r => r.1.1) run_locate_touch

end Detector

end TrajectoryEvents
