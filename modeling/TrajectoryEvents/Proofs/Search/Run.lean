import TrajectoryEvents.Detector.Locate
import TrajectoryEvents.Proofs.Search.Course
import TrajectoryEvents.Proofs.Search.Lockstep

/-!
# The run of a search

A search of an interval prepares its detector and then takes the course that the prepared detector
sets. The calls that it makes on the way are those of a search that keeps an account, which is the
same search otherwise.

## Main definitions

* `Searches`: everything that a search can do.
* `Detector.calls`: the calls that a search makes.
* `Detector.prepared`: the detector as a search prepares it.

## Main results

* `Detector.run_locateRecorded`: keeping an account changes nothing else.
* `Detector.exists_calls_eq`: a search does what the search of its prepared detector does, and so
  does its account.
* `Detector.searches_locate`: a search that is not refused takes the course of its prepared
  detector.
* `Detector.exists_reported`: a completed search reports the outline of its prepared detector.
* `Detector.run_locate_eq`, `Detector.calls_eq`: the run of a search along a function of time, and
  its calls, step by step.
-/

namespace TrajectoryEvents

variable {σ S : Type}

/-- Everything that a search can do: it looks at the start of the interval and scans along the
epochs after it, unless there is no value at the start. -/
inductive Searches (p : Probe σ S) (f : Epoch → S) (g : S → Except EventError Float)
    (settings : Settings) (start : Epoch) (ts : List Epoch) :
    List (Call S) → Except EventError (List (Occurrence S)) → Prop
  | failed {e} (value : g (f start) = .error e) :
    Searches p f g settings start ts (look f g start) (.error e)
  | scanned {v calls r} (value : g (f start) = .ok v)
    (course : Course p f g settings ts start v calls r) :
    Searches p f g settings start ts (look f g start ++ calls) r

/-- A search samples the trajectory and asks for values of the detector. -/
theorem Searches.observes {p : Probe σ S} {f : Epoch → S} {g : S → Except EventError Float}
    {settings : Settings} {start : Epoch} {ts : List Epoch} {calls : List (Call S)}
    {r : Except EventError (List (Occurrence S))}
    (h : Searches p f g settings start ts calls r) : ∀ c ∈ calls, c.Observes f g := by
  cases h with
  | failed => exact observes_of_mem_look
  | scanned _ course => exact List.forall_mem_append.2 ⟨observes_of_mem_look, course.observes⟩

open SearchM in
/-- What a search adds to its account. -/
theorem Probe.Observes.records_search {p : Probe σ S} {f : Epoch → S}
    {g : S → Except EventError Float} (hp : p.Observes f g) (settings : Settings)
    (start finish : Epoch) :
    Records (p.recorded.search settings start finish (f start))
      (p.search settings start finish (f start)) fun r calls =>
        Searches p f g settings start (samplesAfter settings.maxCheckInterval finish start)
          (.sample start (f start) :: calls) r := by
  rw [Probe.search_eq, Probe.search_eq]
  refine (hp.records_value (f start)).bind ?_ ?_
  · rintro v _ ⟨hv, rfl⟩
    refine (hp.records_scanAlong settings _ start v).imp ?_
    intro r calls hcourse
    exact .scanned hv.symm hcourse
  · rintro e _ ⟨he, rfl⟩
    exact .failed he.symm

namespace Detector

variable {ι κ τ : Type} [Indicator ι S] [Snapshot S] [CustomHandler κ S τ]

/-- What a detector is asked about along a trajectory that is a function of the epoch. -/
theorem observes_probe (d : Detector ι κ) {trajectory : Epoch → StateM τ S} {f : Epoch → S}
    (hf : ∀ t m, (trajectory t m).1 = f t) : (d.probe trajectory).Observes f d.g where
  sample t m := hf t m.custom
  value _ _ := rfl

variable [Initializable ι S τ]

/-- A search of an interval that keeps an account of its calls. -/
def locateRecorded (d : Detector ι κ) (trajectory : Epoch → StateM τ S) (start finish : Epoch) :
    StateM (Memory τ × List (Call S)) (Except EventError (List (Occurrence S)) × Detector ι κ) :=
  d.locateBy (fun d => (d.probe trajectory).recorded) (fun d s target => unnoted (d.init s target))
    start finish

/-- The calls that a search makes. -/
def calls (d : Detector ι κ) (trajectory : Epoch → StateM τ S) (start finish : Epoch)
    (m : Memory τ) : List (Call S) :=
  ((d.locateRecorded trajectory start finish).run (m, [])).2.2

/-- The detector as a search prepares it. -/
def prepared (d : Detector ι κ) (trajectory : Epoch → StateM τ S) (start finish : Epoch)
    (m : Memory τ) : Detector ι κ :=
  ((d.locate trajectory start finish).run m).1.2

/-- A search that is refused makes no calls. -/
theorem calls_of_le (d : Detector ι κ) (trajectory : Epoch → StateM τ S) {start finish : Epoch}
    (h : finish ≤ start) (m : Memory τ) : d.calls trajectory start finish m = [] := by
  rw [calls, locateRecorded, run_locateBy_of_le _ _ _ _ h]

/-- Keeping an account changes neither what a search answers nor what it leaves in memory, whatever
the trajectory is. -/
theorem run_locateRecorded (d : Detector ι κ) (trajectory : Epoch → StateM τ S)
    (start finish : Epoch) (m : Memory τ) :
    (d.locateRecorded trajectory start finish).run (m, []) =
      (((d.locate trajectory start finish).run m).1,
        ((d.locate trajectory start finish).run m).2, d.calls trajectory start finish m) := by
  have hstep : ((d.locateRecorded trajectory start finish).run (m, [])).1 =
        ((d.locate trajectory start finish).run m).1 ∧
      ((d.locateRecorded trajectory start finish).run (m, [])).2.1 =
        ((d.locate trajectory start finish).run m).2 :=
    inStep_locateBy _ _ (fun d s target => unnoted (d.init s target))
      (fun d s target => d.init s target) id (fun d => (d.probe trajectory).alike_recorded)
      (fun _ => rfl) d (fun s => .unnoted (d.init s finish)) rfl
  exact Prod.ext hstep.1 (Prod.ext hstep.2 rfl)

section Prepared

variable (d : Detector ι κ) {trajectory : Epoch → StateM τ S} {start finish : Epoch}

/-- A search that is refused leaves its detector as it is. -/
theorem prepared_of_le (h : finish ≤ start) (m : Memory τ) :
    d.prepared trajectory start finish m = d := by
  rw [prepared, d.run_locate_of_le trajectory h]

/-- A search prepares its detector for the state that it samples at the start of the interval. -/
private theorem prepared_of_not_le (h : ¬ finish ≤ start) (m : Memory τ) :
    d.prepared trajectory start finish m =
      ((d.init (trajectory start m.custom).1 finish).run
        (Memory.withCustom (trajectory start) m).2).1 := by
  rw [prepared, d.run_locate trajectory h]

variable (trajectory) in
/-- Preparing a detector keeps its settings. -/
theorem settings_prepared (start finish : Epoch) (m : Memory τ) :
    (d.prepared trajectory start finish m).settings = d.settings := by
  by_cases h : finish ≤ start
  · rw [d.prepared_of_le h]
  · rw [d.prepared_of_not_le h, settings_init]

/-- Preparing a detector does not depend on its settings. -/
theorem prepared_withSettings (settings : Settings) (m : Memory τ) :
    (d.withSettings settings d.handler).prepared trajectory start finish m =
      (d.prepared trajectory start finish m).withSettings settings d.handler := by
  by_cases h : finish ≤ start
  · rw [prepared_of_le _ h, prepared_of_le _ h]
  · rw [prepared_of_not_le _ h, prepared_of_not_le _ h, run_init_withSettings]

open SearchM in
/-- A search that is not refused samples the start of the interval. What it does then, and what it
adds to its account, is what the search of its prepared detector does and adds. -/
theorem exists_calls_eq (h : ¬ finish ≤ start) (m : Memory τ)
    {P : Except EventError (List (Occurrence S)) → List (Call S) → Prop}
    (hP : Records
      (((d.prepared trajectory start finish m).probe trajectory).recorded.search d.settings start
        finish (trajectory start m.custom).1)
      (((d.prepared trajectory start finish m).probe trajectory).search d.settings start finish
        (trajectory start m.custom).1) P) :
    ∃ calls, d.calls trajectory start finish m =
        .sample start (trajectory start m.custom).1 :: calls ∧
      P ((d.locate trajectory start finish).run m).1.1 calls := by
  have hsettings := d.settings_prepared trajectory start finish m
  rw [d.prepared_of_not_le h] at hP hsettings
  obtain ⟨calls, hrun, hsearch⟩ := hP ((d.init (trajectory start m.custom).1 finish).run
    (Memory.withCustom (trajectory start) m).2).2 [.sample start (trajectory start m.custom).1]
  rw [← hsettings] at hrun hsearch
  refine ⟨calls, ?_, ?_⟩
  · rw [Detector.calls, locateRecorded, run_locateBy _ _ _ _ h]
    exact congrArg (fun r => r.2.2) hrun
  · rw [d.run_locate trajectory h]
    exact hsearch

variable {f : Epoch → S} (hf : ∀ t m, (trajectory t m).1 = f t)
include hf

/-- A search prepares its detector for the state at the start of the interval. -/
theorem prepared_eq (h : ¬ finish ≤ start) (m : Memory τ) :
    d.prepared trajectory start finish m =
      ((d.init (f start) finish).run (Memory.withCustom (trajectory start) m).2).1 := by
  rw [d.prepared_of_not_le h, hf]

/-- Preparing a detector keeps its handler. -/
theorem handler_prepared (start finish : Epoch) (m : Memory τ) :
    (d.prepared trajectory start finish m).handler = d.handler := by
  by_cases h : finish ≤ start
  · rw [d.prepared_of_le h]
  · rw [d.prepared_eq hf h, handler_init]

/-- A search that is not refused takes the course of its prepared detector. -/
theorem searches_locate (h : ¬ finish ≤ start) (m : Memory τ) :
    Searches ((d.prepared trajectory start finish m).probe trajectory) f
      (d.prepared trajectory start finish m).g d.settings start
      (samplesAfter d.settings.maxCheckInterval finish start)
      (d.calls trajectory start finish m) ((d.locate trajectory start finish).run m).1.1 := by
  have hrecords := ((d.prepared trajectory start finish m).observes_probe hf).records_search
    d.settings start finish
  rw [← hf start m.custom] at hrecords
  obtain ⟨calls, hcalls, hsearch⟩ := d.exists_calls_eq h m hrecords
  rw [hcalls]
  exact hsearch

end Prepared

/-- Along a function of time, the search of the prepared detector is a first value and a walk along
the samples after it. -/
theorem run_locate_eq_of_init (d : Detector ι κ) (f : Epoch → S) {start finish : Epoch}
    {m m' : Memory τ} {d' : Detector ι κ} {later : List Epoch} (h : ¬ finish ≤ start)
    (hinit : (d.init (f start) finish).run m = (d', m'))
    (hlater : samplesAfter d.settings.maxCheckInterval finish start = later) :
    (d.locate (fun t => (pure (f t) : StateM τ S)) start finish).run m =
      (fun r : _ × Memory τ => ((r.1, d'), r.2))
        ((do
          let value ← (d'.probe fun t => (pure (f t) : StateM τ S)).g (f start)
          (d'.probe fun t => pure (f t)).scanAlong d'.settings later start value).run m') := by
  have hsettings : d'.settings = d.settings := by
    rw [← d.settings_init (f start) finish m, hinit]
  rw [← hsettings] at hlater
  rw [← hlater, ← Probe.search_eq]
  exact d.run_locate_of_init h hinit

/-- The run of a search whose detector is prepared as it is. -/
theorem run_locate_eq (d : Detector ι κ) (f : Epoch → S) {start finish : Epoch} {m : Memory τ}
    {later : List Epoch} (h : ¬ finish ≤ start) (hinit : (d.init (f start) finish).run m = (d, m))
    (hlater : samplesAfter d.settings.maxCheckInterval finish start = later) :
    (d.locate (fun t => (pure (f t) : StateM τ S)) start finish).run m =
      (fun r : _ × Memory τ => ((r.1, d), r.2))
        ((do
          let value ← (d.probe fun t => (pure (f t) : StateM τ S)).g (f start)
          (d.probe fun t => pure (f t)).scanAlong d.settings later start value).run m) :=
  d.run_locate_eq_of_init f h hinit hlater

/-- The calls of such a search, step by step. -/
theorem calls_eq (d : Detector ι κ) (f : Epoch → S) {start finish : Epoch} {m : Memory τ}
    {later : List Epoch} (h : ¬ finish ≤ start) (hinit : (d.init (f start) finish).run m = (d, m))
    (hlater : samplesAfter d.settings.maxCheckInterval finish start = later) :
    d.calls (fun t => (pure (f t) : StateM τ S)) start finish m =
      ((do
        let p := (d.probe fun t => (pure (f t) : StateM τ S)).recorded
        let value ← p.g (f start)
        p.scanAlong d.settings later start value).run (m, [.sample start (f start)])).2.2 := by
  rw [calls, locateRecorded, run_locateBy _ _ _ _ h, ← hlater]
  dsimp only
  rw [← Probe.search_eq]
  change (fun r : Detector ι κ × Memory τ =>
    (((r.1.probe fun t => (pure (f t) : StateM τ S)).recorded.search r.1.settings start finish
      (f start)).run (r.2, [.sample start (f start)])).2.2) ((d.init (f start) finish).run m) = _
  rw [hinit]

/-- If a search is completed, then its detector has a value at the start of the interval, and the
outline from there on is what is reported. The detector keeps its settings. -/
theorem exists_reported {d d' : Detector ι κ} {trajectory : Epoch → StateM τ S} {f : Epoch → S}
    (hf : ∀ t m, (trajectory t m).1 = f t) {start finish : Epoch} (h : ¬ finish ≤ start)
    {m m' : Memory τ} {events : List (Occurrence S)}
    (hrun : (d.locate trajectory start finish).run m = ((.ok events, d'), m')) :
    d'.settings = d.settings ∧ ∃ value, d'.g (f start) = .ok value ∧
      Reported f (outline (fun t => d'.g (f t)) d.settings
        (samplesAfter d.settings.maxCheckInterval finish start) start value) (.ok events) := by
  have hsearch := d.searches_locate hf h m
  have hsettings := d.settings_prepared trajectory start finish m
  simp only [prepared, hrun] at hsearch hsettings
  generalize d.calls trajectory start finish m = calls at hsearch
  refine ⟨hsettings, ?_⟩
  cases hsearch with
  | scanned value course => exact ⟨_, value, course.reported⟩

end Detector

end TrajectoryEvents
