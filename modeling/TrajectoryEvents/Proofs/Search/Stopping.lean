import TrajectoryEvents.Proofs.Search.Exactness
import TrajectoryEvents.Proofs.Search.Simulation

/-!
# Handlers only cut the list of events

What a handler decides about an event is reported with it, and a decision to stop ends the search.
Nothing else comes of a decision: the events of a search are those of the search that always
continues, up to the first one at which the handler stops.

## Main definitions

* `CutAtStop`: the events that a handler leaves of those there are.
* `Curtails`: the answer that a handler leaves of a search.
* `Answered`: events that are reported as the handler was asked about them.

## Main results

* `Reported.curtails`: what is reported of an outline is what a handler leaves of its verdict.
* `Course.answered`: a scan reports the answers of the handler, and asks nothing after a decision to
  stop.
* `Detector.g_prepared_withHandler`: a handler that does not prepare itself has no influence on the
  values of a detector.
* `Detector.locate_withHandler`: a handler only cuts the list of events.
-/

namespace TrajectoryEvents

variable {σ S : Type}

/-! ### Cutting a list of events -/

/-- An event apart from what the handler did about it. -/
def Occurrence.located (event : Occurrence S) : Epoch × S × Bool :=
  (event.epoch, event.state, event.increasing)

/-- What a handler leaves of the events `es`: the same events, up to and including the first at
which the handler stops, or all of them if there is none. -/
structure CutAtStop (es events : List (Occurrence S)) : Prop where
  located : events.map Occurrence.located = (es.map Occurrence.located).take events.length
  go : ∀ e ∈ events.dropLast, e.action ≠ .stop
  stop : events.length < es.length → ∃ e, events.getLast? = some e ∧ e.action = .stop

namespace CutAtStop

theorem nil : CutAtStop ([] : List (Occurrence S)) [] := ⟨rfl, nofun, nofun⟩

/-- A decision to stop cuts off the events after it. -/
theorem singleton {x event : Occurrence S} (h : event.located = x.located)
    (stop : event.action = .stop) (rest : List (Occurrence S)) :
    CutAtStop (x :: rest) [event] where
  located := by simp [h]
  go := nofun
  stop _ := ⟨event, rfl, stop⟩

/-- Any other decision lets the search go on. -/
theorem cons {x event : Occurrence S} {es events : List (Occurrence S)}
    (h : event.located = x.located) (go : event.action ≠ .stop) (hlater : CutAtStop es events) :
    CutAtStop (x :: es) (event :: events) where
  located := by simp [h, hlater.located]
  go := by
    intro e he
    cases events with
    | nil => cases he
    | cons e' rest =>
      rw [List.dropLast_cons_cons] at he
      rcases List.mem_cons.1 he with rfl | he
      · exact go
      · exact hlater.go e he
  stop := by
    intro hlt
    obtain ⟨e, hlast, hstop⟩ := hlater.stop (Nat.lt_of_succ_lt_succ hlt)
    exact ⟨e, by simp [List.getLast?_cons, hlast], hstop⟩

end CutAtStop

/-- What is reported of a finding is located where it passes. -/
theorem Finding.Matches.located_eq {f : Epoch → S} {x : Finding} {event : Occurrence S}
    (h : x.Matches f event) : event.located = (x.passed f).located := by
  rw [Occurrence.located, h.epoch, h.state, h.increasing]
  rfl

/-- What a handler leaves of the answer `base` of a search that always continues. Of events, a part
up to a decision to stop remains; instead of a failure, there may be events of which the last one is
a decision to stop. -/
structure Curtails (base r : Except EventError (List (Occurrence S))) : Prop where
  ok : ∀ es, base = .ok es → ∃ events, r = .ok events ∧ CutAtStop es events
  error : ∀ e, base = .error e → r = .error e ∨
    ∃ events last, r = .ok (events ++ [last]) ∧ (∀ event ∈ events, event.action ≠ .stop) ∧
      last.action = .stop

namespace Curtails

variable {base : Except EventError (List (Occurrence S))} {x event : Occurrence S}

/-- A failure is left as it is. -/
theorem refl_error (e : EventError) :
    Curtails (.error e : Except EventError (List (Occurrence S))) (.error e) :=
  ⟨nofun, fun _ he => .inl he⟩

/-- A decision to stop cuts off everything that comes later, a failure as well. -/
theorem stop (h : event.located = x.located) (stop : event.action = .stop) :
    Curtails (base.map (x :: ·)) (.ok [event]) := by
  cases base with
  | error e => exact ⟨nofun, fun _ _ => .inr ⟨[], event, rfl, nofun, stop⟩⟩
  | ok rest =>
    refine ⟨?_, nofun⟩
    rintro _ ⟨⟩
    exact ⟨[event], rfl, .singleton h stop rest⟩

/-- Any other decision leaves what the handler leaves later. -/
theorem cons {later : List (Occurrence S)} (h : event.located = x.located)
    (go : event.action ≠ .stop) (hlater : Curtails base (.ok later)) :
    Curtails (base.map (x :: ·)) (.ok (event :: later)) := by
  cases base with
  | error e =>
    obtain ⟨⟨⟩⟩ | ⟨events, last, hevents, hgo, hstop⟩ := hlater.error e rfl
    obtain rfl := Except.ok.inj hevents
    exact ⟨nofun, fun _ _ =>
      .inr ⟨event :: events, last, rfl, List.forall_mem_cons.2 ⟨go, hgo⟩, hstop⟩⟩
  | ok rest =>
    obtain ⟨events, hevents, hcut⟩ := hlater.ok rest rfl
    obtain rfl := Except.ok.inj hevents
    refine ⟨?_, nofun⟩
    rintro _ ⟨⟩
    exact ⟨_, rfl, .cons h go hcut⟩

/-- A later failure is the answer. -/
theorem lost {e : EventError} (x : Occurrence S) (hlater : Curtails base (.error e)) :
    Curtails (base.map (x :: ·)) (.error e) := by
  cases base with
  | error e' => exact ⟨nofun, hlater.error⟩
  | ok rest =>
    obtain ⟨events, hevents, -⟩ := hlater.ok rest rfl
    cases hevents

end Curtails

/-- The verdict of an outline, one event before the others. -/
theorem Outline.verdict_cons (f : Epoch → S) (x : Finding) (rest : List Finding)
    (failure : Option EventError) :
    (⟨x :: rest, failure⟩ : Outline).verdict f =
      ((⟨rest, failure⟩ : Outline).verdict f).map (x.passed f :: ·) := by
  cases failure <;> rfl

/-- What is reported of an outline is what a handler leaves of its verdict. -/
theorem Reported.curtails {f : Epoch → S} {o : Outline}
    {r : Except EventError (List (Occurrence S))} (h : Reported f o r) :
    Curtails (o.verdict f) r := by
  induction h with
  | done =>
    refine ⟨?_, nofun⟩
    rintro _ ⟨⟩
    exact ⟨[], rfl, .nil⟩
  | failed e => exact .refl_error e
  | stopped hm stop =>
    rw [Outline.verdict_cons]
    exact .stop hm.located_eq stop
  | found hm go _ ih =>
    rw [Outline.verdict_cons]
    exact .cons hm.located_eq go ih
  | lost x _ ih =>
    rw [Outline.verdict_cons]
    exact .lost _ ih

/-! ### Asking the handler -/

/-- Events that are reported as the handler was asked about them, by a search with the given calls.
The calls that ask the handler are those of the events, in order. A state is replaced exactly if
that is the decision, and a decision to stop is the last call of all. -/
structure Answered (calls : List (Call S)) (events : List (Occurrence S)) : Prop where
  asked : calls.filter Call.asksHandler = events.flatMap Occurrence.calls
  reset : ∀ e ∈ events, (e.reset.isSome = true ↔ e.action = .resetState)
  silent : ∀ e ∈ events, e.action = .stop →
    ∃ before, calls = before ++ [.consult e.state e.increasing .stop]

namespace Answered

variable {calls : List (Call S)} {events : List (Occurrence S)}

theorem nil : Answered ([] : List (Call S)) [] := ⟨rfl, nofun, nofun⟩

/-- Calls that do not ask the handler may come before. -/
theorem append {before : List (Call S)} (hbefore : before.filter Call.asksHandler = [])
    (h : Answered calls events) : Answered (before ++ calls) events where
  asked := by rw [List.filter_append, hbefore, List.nil_append, h.asked]
  reset := h.reset
  silent := by
    intro e he hstop
    obtain ⟨calls', rfl⟩ := h.silent e he hstop
    exact ⟨before ++ calls', (List.append_assoc _ _ _).symm⟩

end Answered

/-- All calls of an event ask the handler. -/
theorem Occurrence.filter_calls (event : Occurrence S) :
    event.calls.filter Call.asksHandler = event.calls := by
  rw [List.filter_eq_self]
  simp only [Occurrence.calls, List.forall_mem_cons, Option.mem_toList, Option.map_eq_some_iff]
  refine ⟨rfl, ?_⟩
  rintro _ ⟨s, -, rfl⟩
  rfl

/-- A bisection does not ask the handler. -/
theorem NarrowingCalls.filter_eq_nil {f : Epoch → S} {g : S → Except EventError Float}
    {threshold : Float} {permitted : UInt64} {n : ℕ} {b : Bracket} {calls : List (Call S)}
    (h : NarrowingCalls f g threshold permitted n b calls) :
    calls.filter Call.asksHandler = [] := by
  rw [List.filter_eq_nil_iff]
  intro c hc
  rw [h.asksHandler c hc]
  exact Bool.false_ne_true

namespace Probe.Reports

variable {p : Probe σ S} {f : Epoch → S} {x : Finding} {event : Occurrence S}

/-- A decision to stop is the last that is asked about an event. -/
theorem answered_stop (h : p.Reports f x event) (stop : event.action = .stop) :
    Answered event.calls [event] := by
  have hreset : event.reset = none := by
    rw [← Option.not_isSome_iff_eq_none, h.matches.reset, stop]
    exact nofun
  refine ⟨by rw [event.filter_calls, List.flatMap_singleton], ?_, ?_⟩
  · rintro _ (_ | ⟨_, ⟨⟩⟩)
    exact h.matches.reset
  · rintro _ (_ | ⟨_, ⟨⟩⟩) -
    refine ⟨[], ?_⟩
    rw [Occurrence.calls, hreset, stop]
    rfl

/-- After any other decision the search goes on. -/
theorem answered_go (h : p.Reports f x event) (go : event.action ≠ .stop)
    {calls : List (Call S)} {events : List (Occurrence S)} (hlater : Answered calls events) :
    Answered (event.calls ++ calls) (event :: events) where
  asked := by rw [List.filter_append, event.filter_calls, hlater.asked, List.flatMap_cons]
  reset := List.forall_mem_cons.2 ⟨h.matches.reset, hlater.reset⟩
  silent := by
    intro e he hstop
    rcases List.mem_cons.1 he with rfl | he
    · exact absurd hstop go
    · obtain ⟨before, rfl⟩ := hlater.silent e he hstop
      exact ⟨event.calls ++ before, (List.append_assoc _ _ _).symm⟩

end Probe.Reports

section Searches

variable {p : Probe σ S} {f : Epoch → S} {g : S → Except EventError Float} {settings : Settings}
  {calls : List (Call S)} {r : Except EventError (List (Occurrence S))}

/-- A scan reports the answers of the handler, and asks nothing after a decision to stop. -/
theorem Course.answered {ts : List Epoch} {a : Epoch} {v : Float}
    (h : Course p f g settings ts a v calls r) {events : List (Occurrence S)}
    (hr : r = .ok events) : Answered calls events := by
  induction h generalizing events with
  | done =>
    obtain rfl := Except.ok.inj hr
    exact .nil
  | failed => cases hr
  | quiet _ _ _ ih => exact .append rfl (ih hr)
  | unresolved => cases hr
  | stopped _ _ refines reports stop =>
    obtain rfl := Except.ok.inj hr
    exact .append rfl (.append refines.calls.filter_eq_nil (reports.answered_stop stop))
  | @found _ _ _ _ _ _ _ _ _ r _ _ refines reports go _ ih =>
    cases r with
    | error => cases hr
    | ok later =>
      obtain rfl := Except.ok.inj hr
      exact .append rfl (.append refines.calls.filter_eq_nil (reports.answered_go go (ih rfl)))

/-- So does a search. -/
theorem Searches.answered {start : Epoch} {ts : List Epoch} {events : List (Occurrence S)}
    (h : Searches p f g settings start ts calls (.ok events)) : Answered calls events := by
  cases h with
  | scanned _ course => exact .append rfl (course.answered rfl)

/-- Of two searches with the same values, one with a handler that always continues, the other one
answers what its handler leaves. -/
theorem Searches.curtails {σ' : Type} {p' : Probe σ' S} (hp : p.Continues) {start : Epoch}
    {ts : List Epoch} {calls' : List (Call S)} {r' : Except EventError (List (Occurrence S))}
    (h : Searches p f g settings start ts calls r)
    (h' : Searches p' f g settings start ts calls' r') : Curtails r r' := by
  cases h with
  | failed value =>
    cases h' with
    | failed value' =>
      obtain rfl := Except.error.inj (value.symm.trans value')
      exact .refl_error _
    | scanned value' => cases value.symm.trans value'
  | scanned value course =>
    cases h' with
    | failed value' => cases value.symm.trans value'
    | scanned value' course' =>
      obtain rfl := Except.ok.inj (value.symm.trans value')
      -- one answer is the verdict of the outline that the other one reports
      rw [course.eq_verdict hp]
      exact course'.reported.curtails

end Searches

/-! ### Searches -/

namespace Detector

variable {ι κ τ : Type} [Indicator ι S] [Snapshot S] [CustomHandler κ S τ] [Initializable ι S τ]
  {trajectory : Epoch → StateM τ S} {f : Epoch → S}

/-- A handler that does not prepare itself has no influence on the values of a prepared detector. -/
theorem g_prepared_withHandler (d : Detector ι κ) {h : Handler κ}
    (hf : ∀ t m, (trajectory t m).1 = f t) (start finish : Epoch) (m : Memory τ)
    (hinit : h.init (f start) finish = (pure () : StateM (Memory τ) Unit)) (s : S) :
    ((d.withHandler h).prepared trajectory start finish m).g s =
      ((d.withHandler .continueOnEvent).prepared trajectory start finish m).g s := by
  by_cases hle : finish ≤ start
  · rw [prepared_of_le _ hle, prepared_of_le _ hle, withHandler, withHandler, g_withSettings,
      g_withSettings]
  · rw [prepared_eq _ hf hle, prepared_eq _ hf hle]
    cases d with
    | atomic | boolean | negate =>
      simp only [withHandler, withSettings, Detector.init, hinit]
      rfl

/-- A handler only cuts the list of events. Along a trajectory that is a function of the epoch, let
a detector be searched with the handler `h` and, from a memory of its own, with the handler that
always continues, and let the prepared detectors have the same values.

* If the latter search finds events, then so does the search with `h`: the same ones, up to and
  including the first at which `h` stops.
* If it fails, then the search with `h` fails with the same error, or is stopped before.
* The events are reported as `h` was asked about them. After a decision to stop nothing is asked,
  neither the trajectory nor the detector nor the handler. -/
theorem locate_withHandler (d : Detector ι κ) (h : Handler κ)
    (hf : ∀ t m, (trajectory t m).1 = f t) (start finish : Epoch) (m m₀ : Memory τ)
    (hg : ∀ s, ((d.withHandler h).prepared trajectory start finish m).g s =
      ((d.withHandler .continueOnEvent).prepared trajectory start finish m₀).g s) :
    Curtails (((d.withHandler .continueOnEvent).locate trajectory start finish).run m₀).1.1
        (((d.withHandler h).locate trajectory start finish).run m).1.1 ∧
    ∀ events, (((d.withHandler h).locate trajectory start finish).run m).1.1 = .ok events →
      Answered ((d.withHandler h).calls trajectory start finish m) events := by
  by_cases hle : finish ≤ start
  · rw [run_locate_of_le _ _ hle, run_locate_of_le _ _ hle]
    refine ⟨.refl_error _, ?_⟩
    rintro events ⟨⟩
  have hbase := (d.withHandler .continueOnEvent).searches_locate hf hle m₀
  have hsearch := (d.withHandler h).searches_locate hf hle m
  have hsettings (h : Handler κ) : (d.withHandler h).settings = d.settings :=
    settings_withSettings _ _ _
  have hhandler : ((d.withHandler .continueOnEvent).prepared trajectory start finish m₀).handler =
      .continueOnEvent :=
    (handler_prepared _ hf start finish m₀).trans (handler_withSettings _ _ _)
  -- both searches walk along the same samples, with the same values
  rw [hsettings] at hbase
  rw [hsettings, funext hg] at hsearch
  refine ⟨hbase.curtails (continues_probe hhandler trajectory) hsearch, ?_⟩
  intro events hevents
  rw [hevents] at hsearch
  exact hsearch.answered

/-- A handler that stops on every event leaves the first edge of the pulse. -/
theorem run_locate_stopped_pulse :
    ((raised.withHandler .stopOnEvent).locate (fun t => (pure (pulse t) : StateM Unit _)) ⟨0.0⟩
        ⟨2.0⟩).run ⟨.empty, ()⟩ =
      ((.ok [⟨⟨0.5⟩, pulse ⟨0.5⟩, true, .stop, none⟩], raised.withHandler .stopOnEvent),
        ⟨.empty, ()⟩) :=
  run_locate_eq (raised.withHandler .stopOnEvent) pulse (by decide) rfl samplesAfter_pulse

/-- It is the first of the two edges that are found without it, and the handler is asked about
nothing but this one. -/
theorem locate_withHandler_pulse :
    ((raised.locate (fun t => (pure (pulse t) : StateM Unit _)) ⟨0.0⟩ ⟨2.0⟩).run
        ⟨.empty, ()⟩).1.1 =
      .ok [⟨⟨0.5⟩, pulse ⟨0.5⟩, true, .proceed, none⟩,
        ⟨⟨2.0⟩, pulse ⟨2.0⟩, false, .proceed, none⟩] ∧
    (((raised.withHandler .stopOnEvent).locate (fun t => (pure (pulse t) : StateM Unit _)) ⟨0.0⟩
        ⟨2.0⟩).run ⟨.empty, ()⟩).1.1 =
      .ok [⟨⟨0.5⟩, pulse ⟨0.5⟩, true, .stop, none⟩] ∧
    CutAtStop [⟨⟨0.5⟩, pulse ⟨0.5⟩, true, .proceed, none⟩,
        ⟨⟨2.0⟩, pulse ⟨2.0⟩, false, .proceed, none⟩]
      [⟨⟨0.5⟩, pulse ⟨0.5⟩, true, .stop, none⟩] ∧
    Answered ((raised.withHandler .stopOnEvent).calls
      (fun t => (pure (pulse t) : StateM Unit _)) ⟨0.0⟩ ⟨2.0⟩ ⟨.empty, ()⟩)
      [⟨⟨0.5⟩, pulse ⟨0.5⟩, true, .stop, none⟩] := by
  have hf : ∀ t m, ((pure (pulse t) : StateM Unit _) m).1 = pulse t := fun _ _ => rfl
  have hbase := congrArg (fun r => r.1.1) run_locate_pulse
  have hrun := congrArg (fun r => r.1.1) run_locate_stopped_pulse
  obtain ⟨hcurtails, hasked⟩ := locate_withHandler raised .stopOnEvent hf ⟨0.0⟩ ⟨2.0⟩ ⟨.empty, ()⟩
    ⟨.empty, ()⟩ (g_prepared_withHandler raised hf _ _ _ rfl)
  obtain ⟨events, hevents, hcut⟩ := hcurtails.ok _ hbase
  obtain rfl := Except.ok.inj (hevents.symm.trans hrun)
  exact ⟨hbase, hrun, hcut, hasked _ hrun⟩

end Detector

end TrajectoryEvents
