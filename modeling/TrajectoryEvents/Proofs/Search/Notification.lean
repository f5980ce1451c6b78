import TrajectoryEvents.Proofs.Detector.Lockstep
import TrajectoryEvents.Proofs.Search.Exactness
import TrajectoryEvents.Proofs.Search.Progress

/-!
# What a search tells its handler

The handler of a detector is told of every event once, in order, and of nothing else. A completed
search returns the events that it has told the handler of. A failure is the end of a search: it may
strike at any sample and at any midpoint, and by then the handler has been told of the events of all
pairs of samples that were completed before. A recorder holds what it was told of in the latest
search.

## Main definitions

* `Notifies`: calls in which the handler is told of given events.
* `Breaks`: how a round of a search fails.
* `Interrupted`: a search that fails, with the events told by then.
* `Search`, `Search.runAll`: searches that share a memory, one after the other.

## Main results

* `Course.notifies`, `Course.exists_breaks`: what a scan tells the handler.
* `Detector.events_locate`: what a recorder holds after a search.
* `Detector.locate_notifies`: what a search tells its handler.
-/

namespace TrajectoryEvents

variable {σ S α : Type}

/-! ### Notifications -/

/-- Calls in which the handler is told of the given events of the trajectory `f`, in order, and of
nothing else. The state is replaced right after the decision, exactly if that is the decision. -/
inductive Notifies (f : Epoch → S) : List (Call S) → List (Occurrence S) → Prop
  | nil : Notifies f [] []
  | other {c calls events} (quiet : c.asksHandler = false) (later : Notifies f calls events) :
    Notifies f (c :: calls) events
  | event {event : Occurrence S} {calls events} (state : event.state = f event.epoch)
    (reset : event.reset.isSome = true ↔ event.action = .resetState)
    (later : Notifies f calls events) : Notifies f (event.calls ++ calls) (event :: events)

namespace Notifies

variable {f : Epoch → S} {calls calls' : List (Call S)} {events events' : List (Occurrence S)}

/-- Calls that do not ask the handler. -/
theorem quiet_append (h : ∀ c ∈ calls, c.asksHandler = false) (later : Notifies f calls' events) :
    Notifies f (calls ++ calls') events := by
  induction calls with
  | nil => exact later
  | cons c calls ih =>
    obtain ⟨hc, hcalls⟩ := List.forall_mem_cons.1 h
    exact .other hc (ih hcalls)

/-- The same, after others. -/
theorem append_quiet (h : Notifies f calls events) (hquiet : ∀ c ∈ calls', c.asksHandler = false) :
    Notifies f (calls ++ calls') events := by
  induction h with
  | nil => simpa using quiet_append hquiet .nil
  | other hc _ ih => exact .other hc ih
  | event state reset _ ih =>
    rw [List.append_assoc]
    exact .event state reset ih

end Notifies

section Courses

variable {p : Probe σ S} {f : Epoch → S} {g : S → Except EventError Float} {settings : Settings}
  {ts : List Epoch} {a : Epoch} {v : Float} {calls : List (Call S)}
  {r : Except EventError (List (Occurrence S))}

/-- The handler is told of an event that is reported. -/
theorem Finding.Matches.notifies {x : Finding} {event : Occurrence S} {events : List (Occurrence S)}
    (h : x.Matches f event) (later : Notifies f calls events) :
    Notifies f (event.calls ++ calls) (event :: events) :=
  .event (h.epoch ▸ h.state) h.reset later

/-- A scan that is completed returns the events that the handler is told of. -/
theorem Course.notifies (h : Course p f g settings ts a v calls r)
    {events : List (Occurrence S)} (hr : r = .ok events) : Notifies f calls events := by
  induction h generalizing events with
  | done =>
    obtain rfl := Except.ok.inj hr
    exact .nil
  | failed => cases hr
  | quiet _ _ _ ih => exact .quiet_append asksHandler_of_mem_look (ih hr)
  | unresolved => cases hr
  | stopped _ _ refines reports =>
    obtain rfl := Except.ok.inj hr
    have hevent := reports.matches.notifies (.nil : Notifies f [] [])
    rw [List.append_nil] at hevent
    exact .quiet_append asksHandler_of_mem_look (.quiet_append refines.calls.asksHandler hevent)
  | @found _ _ _ _ _ _ _ _ _ r _ _ refines reports _ _ ih =>
    cases r with
    | error => cases hr
    | ok later =>
      obtain rfl := Except.ok.inj hr
      exact .quiet_append asksHandler_of_mem_look
        (.quiet_append refines.calls.asksHandler (reports.matches.notifies (ih rfl)))

/-! ### Interruptions -/

/-- The event of a pair of consecutive samples: the epoch to which their bracket is narrowed down,
with the state there and the direction from one value to the other. It does not stop the search. -/
structure Yields (f : Epoch → S) (g : S → Except EventError Float) (settings : Settings)
    (ab : Sample × Sample) (event : Occurrence S) : Prop where
  epoch : refined (fun t => g (f t)) settings ⟨ab.1.epoch, ab.1.value, ab.2.epoch⟩ =
    .ok event.epoch
  state : event.state = f event.epoch
  increasing : event.increasing = decide (ab.1.value < ab.2.value)
  go : event.action ≠ .stop

/-- How a round fails that goes from a sample `a` to the epoch `b`, with its calls: there is no
value at `b`, or the value crosses zero and the bracket cannot be narrowed down. -/
inductive Breaks (f : Epoch → S) (g : S → Except EventError Float) (settings : Settings)
    (a : Sample) (b : Epoch) : List (Call S) → EventError → Prop
  | sample {e} (failure : g (f b) = .error e) : Breaks f g settings a b (look f g b) e
  | crossing {w calls e} (value : g (f b) = .ok w) (crosses : Crosses a.value w)
    (refines : Refines f g settings ⟨a.epoch, a.value, b⟩ (.error e) calls) :
    Breaks f g settings a b (look f g b ++ calls) e

/-- A round that fails does not ask the handler. -/
theorem Breaks.asksHandler {x : Sample} {b : Epoch} {e : EventError}
    (h : Breaks f g settings x b calls e) : ∀ c ∈ calls, c.asksHandler = false := by
  cases h with
  | sample => exact asksHandler_of_mem_look
  | crossing _ _ refines =>
    exact List.forall_mem_append.2 ⟨asksHandler_of_mem_look, refines.calls.asksHandler⟩

/-- A search along the sample epochs that fails with an error, with the events that the handler has
been told of by then, and the calls. Either there is no value at the first epoch, or the search gets
through the samples `points`, and breaks in the round after them. Then the events are those of the
pairs of consecutive `points` between which the value crosses zero. -/
inductive Interrupted (f : Epoch → S) (g : S → Except EventError Float) (settings : Settings) :
    List Epoch → List (Occurrence S) → List (Call S) → EventError → Prop
  | first {t ts e} (failure : g (f t) = .error e) :
    Interrupted f g settings (t :: ts) [] (look f g t) e
  | round {points : List Sample} {a b rest events before last e}
    (values : ∀ x ∈ points, g (f x.epoch) = .ok x.value) (latest : points.getLast? = some a)
    (completed : List.Forall₂ (Yields f g settings) (crossings points) events)
    (notifies : Notifies f before events) (breaks : Breaks f g settings a b last e) :
    Interrupted f g settings (points.map Sample.epoch ++ b :: rest) events (before ++ last) e

/-- The handler of a search that fails is told of no other events. -/
theorem Interrupted.notifies {events : List (Occurrence S)} {e : EventError}
    (h : Interrupted f g settings ts events calls e) : Notifies f calls events := by
  cases h with
  | first => simpa using Notifies.quiet_append asksHandler_of_mem_look .nil
  | round _ _ _ notifies breaks => exact notifies.append_quiet breaks.asksHandler

/-- A scan that fails after the sample `a` gets through some samples, and breaks in the round after
them. -/
theorem Course.exists_breaks (h : Course p f g settings ts a v calls r) {e : EventError}
    (hr : r = .error e) :
    ∃ points b rest events before x last, ts = points.map Sample.epoch ++ b :: rest ∧
      calls = before ++ last ∧ (∀ y ∈ points, g (f y.epoch) = .ok y.value) ∧
      ((⟨a, v⟩ : Sample) :: points).getLast? = some x ∧
      List.Forall₂ (Yields f g settings) (crossings (⟨a, v⟩ :: points)) events ∧
      Notifies f before events ∧ Breaks f g settings x b last e := by
  induction h with
  | done => cases hr
  | @failed b rest a v e value =>
    obtain rfl := Except.error.inj hr
    exact ⟨[], b, rest, [], [], ⟨a, v⟩, _, rfl, rfl, nofun, rfl, .nil, .nil, .sample value⟩
  | @quiet b rest a v w calls r value flat _ ih =>
    obtain ⟨points, b', rest', events, before, x, last, rfl, rfl, hvalues, hlast, hevents,
      hnotifies, hbreaks⟩ := ih hr
    refine ⟨⟨b, w⟩ :: points, b', rest', events, look f g b ++ before, x, last, rfl,
      (List.append_assoc _ _ _).symm, List.forall_mem_cons.2 ⟨value, hvalues⟩, ?_, ?_,
      .quiet_append asksHandler_of_mem_look hnotifies, hbreaks⟩
    · rw [List.getLast?_cons_cons, hlast]
    · rwa [crossings_cons_cons, if_neg flat]
  | @unresolved b rest a v w calls e value crosses refines =>
    obtain rfl := Except.error.inj hr
    exact ⟨[], b, rest, [], [], ⟨a, v⟩, _, rfl, rfl, nofun, rfl, .nil, .nil,
      .crossing value crosses refines⟩
  | stopped => cases hr
  | @found b rest a v w calls epoch event later r value crosses refines reports go _ ih =>
    cases r with
    | ok => cases hr
    | error e' =>
      obtain ⟨points, b', rest', events, before, x, last, rfl, rfl, hvalues, hlast, hevents,
        hnotifies, hbreaks⟩ := ih hr
      have hmatches := reports.matches
      have hyields : Yields f g settings (⟨a, v⟩, ⟨b, w⟩) event :=
        ⟨hmatches.epoch ▸ refines.answer, hmatches.epoch ▸ hmatches.state, hmatches.increasing, go⟩
      refine ⟨⟨b, w⟩ :: points, b', rest', event :: events,
        look f g b ++ (calls ++ (event.calls ++ before)), x, last, rfl, ?_,
        List.forall_mem_cons.2 ⟨value, hvalues⟩, ?_, ?_, ?_, hbreaks⟩
      · simp only [List.append_assoc]
      · rw [List.getLast?_cons_cons, hlast]
      · rw [crossings_cons_cons, if_pos crosses]
        exact .cons hyields hevents
      · exact .quiet_append asksHandler_of_mem_look
          (.quiet_append refines.calls.asksHandler (hmatches.notifies hnotifies))

/-- What a search tells the handler: the events that it returns, or those before it fails. -/
theorem Searches.exists_notifies {start : Epoch}
    (h : Searches p f g settings start ts calls r) :
    ∃ events, Notifies f calls events ∧ (∀ es, r = .ok es → es = events) ∧
      ∀ e, r = .error e → Interrupted f g settings (start :: ts) events calls e := by
  cases h with
  | @failed e value =>
    refine ⟨[], ?_, nofun, ?_⟩
    · simpa using Notifies.quiet_append asksHandler_of_mem_look .nil
    · rintro _ ⟨⟩
      exact .first value
  | @scanned v calls r value course =>
    cases r with
    | ok events =>
      exact ⟨events, .quiet_append asksHandler_of_mem_look (course.notifies rfl),
        fun _ hes => (Except.ok.inj hes).symm, nofun⟩
    | error e =>
      obtain ⟨points, b, rest, events, before, x, last, rfl, rfl, hvalues, hlast, hevents,
        hnotifies, hbreaks⟩ := course.exists_breaks rfl
      have hvalues' : ∀ y ∈ (⟨start, v⟩ : Sample) :: points, g (f y.epoch) = .ok y.value :=
        List.forall_mem_cons.2 ⟨value, hvalues⟩
      have hnotifies' : Notifies f (look f g start ++ before) events :=
        .quiet_append asksHandler_of_mem_look hnotifies
      have hinterrupted : Interrupted f g settings
          (((⟨start, v⟩ : Sample) :: points).map Sample.epoch ++ b :: rest) events
          ((look f g start ++ before) ++ last) e :=
        .round hvalues' hlast hevents hnotifies' hbreaks
      rw [List.append_assoc] at hinterrupted
      refine ⟨events, hinterrupted.notifies, nofun, ?_⟩
      rintro _ ⟨⟩
      exact hinterrupted

end Courses

/-! ### Recorders -/

section Recorders

variable [Snapshot S]

/-- What a recorder keeps of a call. -/
def Call.recorded? : Call S → Option RecordedEvent
  | .consult s increasing _ => some ⟨Snapshot.epoch s, increasing⟩
  | _ => none

/-- What a recorder keeps of an event. -/
def Occurrence.recorded (event : Occurrence S) : RecordedEvent := ⟨event.epoch, event.increasing⟩

/-- Where the states of a trajectory carry their epochs, a recorder keeps the events that it is told
of. -/
theorem Notifies.recorded_eq {f : Epoch → S} (hepoch : ∀ t, Snapshot.epoch (f t) = t)
    {calls : List (Call S)} {events : List (Occurrence S)} (h : Notifies f calls events) :
    calls.filterMap Call.recorded? = events.map Occurrence.recorded := by
  induction h with
  | nil => rfl
  | @other c _ _ quiet _ ih =>
    have hc : c.recorded? = none := by
      cases c with
      | consult => cases quiet
      | sample | value | replace => rfl
    rw [List.filterMap_cons_none hc, ih]
  | @event event _ _ state _ _ ih =>
    have hcalls : event.calls.filterMap Call.recorded? = [event.recorded] := by
      have hreplaced : (event.reset.map (Call.replace event.state)).toList.filterMap
          Call.recorded? = [] := by
        cases event.reset <;> rfl
      have hasked : (Call.consult event.state event.increasing event.action).recorded? =
          some event.recorded := by
        rw [Call.recorded?, state, hepoch, Occurrence.recorded]
      rw [Occurrence.calls, List.filterMap_cons_some hasked, hreplaced]
    rw [List.filterMap_append, hcalls, ih, List.map_cons]
    rfl

namespace Detector

variable {ι κ τ : Type} [CustomHandler κ S τ] {recorder : String}

/-- A memory with an account of a search, in which a recorder has kept all of the account. -/
def Keeps (recorder : String) (m : Memory τ × List (Call S)) : Prop :=
  m.1.recordings.events recorder = m.2.filterMap Call.recorded?

omit [CustomHandler κ S τ] in
/-- A question that is noted is kept if the recorder keeps it. -/
private theorem Keeps.noted {x : StateM (Memory τ) α} {call : α → Call S}
    (h : ∀ m, (x m).2.recordings.events recorder =
      m.recordings.events recorder ++ (call (x m).1).recorded?.toList)
    (m : Memory τ × List (Call S)) (hm : Keeps recorder m) :
    Keeps recorder (noted x call m).2 := by
  have hcall : [call (x m.1).1].filterMap Call.recorded? = (call (x m.1).1).recorded?.toList := by
    cases h : (call (x m.1).1).recorded? <;> simp [h]
  simp only [Keeps, TrajectoryEvents.noted, List.filterMap_append, hcall, h, hm.symm]

/-- A search of a detector whose handler is a recorder keeps all of its account. -/
theorem keeps_search [Indicator ι S] {d : Detector ι κ}
    (hd : d.handler = .recordAndContinue recorder) (trajectory : Epoch → StateM τ S)
    (settings : Settings) (start finish : Epoch) (s : S) {m : Memory τ × List (Call S)}
    (hm : Keeps recorder m) :
    Keeps recorder (((d.probe trajectory).recorded.search settings start finish s).run m).2 := by
  have halike : Probe.Alike (fun m m' => m = m' ∧ Keeps recorder m)
      (d.probe trajectory).recorded (d.probe trajectory).recorded := by
    refine ⟨fun t => ?_, fun s => ?_, fun s increasing => ?_, fun s => ?_⟩
    · exact .of_preserves (.noted fun m => (List.append_nil _).symm)
    · exact .of_preserves (.noted fun m => (List.append_nil _).symm)
    · refine .of_preserves (.noted fun m => ?_)
      simp only [probe, hd]
      exact Recordings.events_record _ _ _
    · refine .of_preserves (.noted fun m => ?_)
      simp only [probe, hd]
      exact (List.append_nil _).symm
  exact (halike.search settings start finish s).preserves hm

variable [Initializable ι S τ]

omit [Snapshot S] in
/-- Preparing a detector clears the recorder that is its handler, and nothing fills it. -/
theorem events_init (d : Detector ι κ) (hd : d.handler = .recordAndContinue recorder) (s : S)
    (target : Epoch) (m : Memory τ) :
    ((d.init s target).run m).2.recordings.events recorder = [] := by
  have hbelow : InStep (fun m m' => m = m' ∧ m.recordings.events recorder = [])
      (d.initBelow s target : StateM (Memory τ) _) (d.initBelow s target) := by
    refine (UpTo.refl (L := Eq) (fun i => rfl) d).inStep_initBelow ?_ ?_
    · rintro i - _ rfl
      exact .of_preserves fun m hm => hm
    · rintro x -
      refine .of_preserves fun m hm => ?_
      cases hx : x.handler with
      | recordAndContinue other =>
        by_cases h : recorder = other
        · exact h ▸ Recordings.events_clear _ _
        · exact (Recordings.events_clear_of_ne h _).trans hm
      | continueOnEvent | stopOnEvent | stopOnIncreasing | stopOnDecreasing | custom => exact hm
  rw [init_eq, hd]
  exact hbelow.preserves (Recordings.events_clear _ _)

variable [Indicator ι S]

/-- After a search, the recorder that is the handler of the detector holds what the handler was told
of. -/
theorem events_locate (d : Detector ι κ) (hd : d.handler = .recordAndContinue recorder)
    (trajectory : Epoch → StateM τ S) {start finish : Epoch} (h : ¬ finish ≤ start)
    (m : Memory τ) :
    ((d.locate trajectory start finish).run m).2.recordings.events recorder =
      (d.calls trajectory start finish m).filterMap Call.recorded? := by
  have hkeeps : Keeps recorder ((d.locateRecorded trajectory start finish).run (m, [])).2 := by
    let s := (trajectory start m.custom).1
    let m₁ := (Memory.withCustom (trajectory start) m).2
    rw [locateRecorded, run_locateBy _ _ _ _ h]
    -- the search starts with an empty recorder, and has sampled the start of the interval
    have hm : Keeps recorder (((d.init s finish).run m₁).2, [Call.sample start s]) :=
      d.events_init hd s finish m₁
    have hd' := (d.handler_init s finish m₁).trans hd
    exact keeps_search hd' trajectory _ start finish s hm
  rwa [d.run_locateRecorded trajectory start finish m] at hkeeps

end Detector

end Recorders

/-! ### Searches -/

/-- A search of a detector along a trajectory in an interval. -/
structure Search (ι κ S τ : Type) where
  detector : Detector ι κ
  trajectory : Epoch → StateM τ S
  start : Epoch
  finish : Epoch

namespace Search

variable {ι κ τ : Type} [Indicator ι S] [Snapshot S] [CustomHandler κ S τ] [Initializable ι S τ]

/-- What a search leaves in memory. -/
def run (x : Search ι κ S τ) (m : Memory τ) : Memory τ :=
  ((x.detector.locate x.trajectory x.start x.finish).run m).2

/-- What several searches leave in memory, one after the other. -/
def runAll (xs : List (Search ι κ S τ)) (m : Memory τ) : Memory τ := xs.foldl (fun m x => x.run m) m

theorem runAll_append (xs : List (Search ι κ S τ)) (x : Search ι κ S τ) (m : Memory τ) :
    runAll (xs ++ [x]) m = x.run (runAll xs m) := by
  rw [runAll, List.foldl_append]
  rfl

end Search

namespace Detector

variable {ι κ τ : Type} [Indicator ι S] [Snapshot S] [CustomHandler κ S τ] [Initializable ι S τ]

/-- What a search tells the handler of its detector. Along a trajectory that is a function `f` of
the epoch, and whose states carry their epochs, there are events that the handler is told of, in
order and each of them once, with the state replaced right after the decision to do so.

* If the search is completed, then these are the events that it returns.
* A value that fails is the last call of the search, and its failure is the answer.
* A failure, be it of a value or of a bisection, interrupts the search; by then the handler has been
  told of the events of all pairs of samples that were completed before.
* If the handler is a recorder, then this is all that the recorder holds afterwards, whatever
  searches have left in memory before. -/
theorem locate_notifies (d : Detector ι κ) {trajectory : Epoch → StateM τ S} {f : Epoch → S}
    (hf : ∀ t m, (trajectory t m).1 = f t) (hepoch : ∀ t, Snapshot.epoch (f t) = t)
    {start finish : Epoch} (h : ¬ finish ≤ start) (m : Memory τ) :
    ∃ events, Notifies f (d.calls trajectory start finish m) events ∧
      (∀ es, ((d.locate trajectory start finish).run m).1.1 = .ok es → es = events) ∧
      (∀ s e, .value s (.error e) ∈ d.calls trajectory start finish m →
        ((d.locate trajectory start finish).run m).1.1 = .error e ∧
        ∃ before, d.calls trajectory start finish m = before ++ [.value s (.error e)] ∧
          ∀ c ∈ before, c.failure? = none) ∧
      (∀ e, ((d.locate trajectory start finish).run m).1.1 = .error e →
        Interrupted f (d.prepared trajectory start finish m).g d.settings
          (samples d.settings.maxCheckInterval start finish) events
          (d.calls trajectory start finish m) e) ∧
      ∀ recorder, d.handler = .recordAndContinue recorder →
        ∀ (earlier : List (Search ι κ S τ)) (m₀ : Memory τ), Search.runAll earlier m₀ = m →
          (Search.runAll (earlier ++ [⟨d, trajectory, start, finish⟩]) m₀).recordings.events
            recorder = events.map Occurrence.recorded := by
  obtain ⟨events, hnotifies, hok, herror⟩ := (d.searches_locate hf h m).exists_notifies
  refine ⟨events, hnotifies, hok, ?_, herror, ?_⟩
  · intro s e hmem
    exact (d.proceeds_locate trajectory h m).concludes.exists_of_mem hmem
  · intro recorder hd earlier m₀ hm
    rw [Search.runAll_append, hm, ← hnotifies.recorded_eq hepoch]
    exact d.events_locate hd trajectory h m

/-- A detector that is positive while the component is raised, with a recorder. -/
def logged : Detector ComponentThreshold Empty :=
  .atomic ⟨0, 0.5⟩ ⟨1.0, 0.5, 100⟩ (.recordAndContinue "log")

/-- A state whose component is raised for a while, and is missing from then on. -/
def lapse (t : Epoch) : TrajectoryState :=
  ⟨t, if t < ⟨1.7⟩ then (pulse t).components else []⟩

/-- A search of the recording detector along a function of time. -/
def loggedSearch (f : Epoch → TrajectoryState) :
    Search ComponentThreshold Empty TrajectoryState Unit :=
  ⟨logged, fun t => pure (f t), ⟨0.0⟩, ⟨2.0⟩⟩

/-- The recorder is cleared before the search. -/
private theorem init_logged (m : Memory Unit) (s : TrajectoryState) :
    (logged.init s ⟨2.0⟩).run m = (logged, ⟨m.recordings.clear "log", ()⟩) := rfl

set_option maxRecDepth 4096 in
/-- Both edges of the pulse are found and recorded. -/
theorem run_locate_logged_pulse (m : Memory Unit) :
    (logged.locate (fun t => (pure (pulse t) : StateM Unit _)) ⟨0.0⟩ ⟨2.0⟩).run m =
      ((.ok [⟨⟨0.5⟩, pulse ⟨0.5⟩, true, .proceed, none⟩,
        ⟨⟨2.0⟩, pulse ⟨2.0⟩, false, .proceed, none⟩], logged),
        ⟨((m.recordings.clear "log").record "log" ⟨⟨0.5⟩, true⟩).record "log" ⟨⟨2.0⟩, false⟩,
          ()⟩) :=
  run_locate_eq_of_init logged pulse (by decide) (init_logged m _) samplesAfter_pulse

set_option maxRecDepth 4096 in
/-- The rising edge is found and recorded, before the value at the last sample fails. -/
theorem run_locate_logged_lapse (m : Memory Unit) :
    (logged.locate (fun t => (pure (lapse t) : StateM Unit _)) ⟨0.0⟩ ⟨2.0⟩).run m =
      ((.error (.indicator "y[0] > 0.5" "state has 0 components"), logged),
        ⟨(m.recordings.clear "log").record "log" ⟨⟨0.5⟩, true⟩, ()⟩) := by
  have hname : ComponentThreshold.name ⟨0, 0.5⟩ = "y[0] > 0.5" := by decide +kernel
  rw [← hname]
  exact run_locate_eq_of_init logged lapse (by decide) (init_logged m _) samplesAfter_pulse

/-- The recorder holds the edges of the pulse, and after another search no more than these. After a
search that fails at its last sample it holds the edge that the handler was told of by then. -/
theorem locate_notifies_pulse :
    (Search.runAll [loggedSearch pulse, loggedSearch pulse] ⟨.empty, ()⟩).recordings.events "log" =
        [⟨⟨0.5⟩, true⟩, ⟨⟨2.0⟩, false⟩] ∧
      (Search.runAll [loggedSearch pulse, loggedSearch lapse]
        ⟨.empty, ()⟩).recordings.events "log" = [⟨⟨0.5⟩, true⟩] ∧
      ∃ events, events.map Occurrence.recorded = [⟨⟨0.5⟩, true⟩] ∧
        Interrupted lapse logged.g logged.settings (samples 1.0 ⟨0.0⟩ ⟨2.0⟩) events
          (logged.calls (fun t => pure (lapse t)) ⟨0.0⟩ ⟨2.0⟩
            (Search.runAll [loggedSearch pulse] ⟨.empty, ()⟩))
          (.indicator "y[0] > 0.5" "state has 0 components") := by
  have hf (f : Epoch → TrajectoryState) : ∀ t m, ((pure (f t) : StateM Unit _) m).1 = f t :=
    fun _ _ => rfl
  have h : ¬ (⟨2.0⟩ : Epoch) ≤ ⟨0.0⟩ := by decide
  let m := Search.runAll [loggedSearch pulse] ⟨.empty, ()⟩
  obtain ⟨events, -, hok, -, -, hrecorded⟩ :=
    locate_notifies logged (hf pulse) (fun _ => rfl) h m
  obtain rfl := hok _ (congrArg (fun r => r.1.1) (run_locate_logged_pulse m))
  refine ⟨hrecorded "log" rfl [loggedSearch pulse] ⟨.empty, ()⟩ rfl, ?_⟩
  -- what the second search is told of is what the recorder holds in the end
  obtain ⟨events, -, -, -, herror, hrecorded⟩ :=
    locate_notifies logged (hf lapse) (fun _ => rfl) h m
  have hholds := hrecorded "log" rfl [loggedSearch pulse] ⟨.empty, ()⟩ rfl
  have hedge : (Search.runAll [loggedSearch pulse, loggedSearch lapse]
      ⟨.empty, ()⟩).recordings.events "log" = [⟨⟨0.5⟩, true⟩] := by
    change ((logged.locate (fun t => (pure (lapse t) : StateM Unit _)) ⟨0.0⟩ ⟨2.0⟩).run
      m).2.recordings.events "log" = _
    rw [run_locate_logged_lapse]
    simp
  have hfailed := herror _ (congrArg (fun r => r.1.1) (run_locate_logged_lapse m))
  exact ⟨hedge, events, hholds.symm.trans hedge, hfailed⟩

end Detector

end TrajectoryEvents
