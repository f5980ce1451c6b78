import TrajectoryEvents.Proofs.Search.Account
import TrajectoryEvents.Proofs.Search.Outline
import TrajectoryEvents.Proofs.Search.Walk

/-!
# The course of a scan

A probe that samples a trajectory that is a function of the epoch, and asks for values that are a
function of the state, may still take note of every question. What a scan does with it is the same
in every memory: it walks along the samples, looks at the midpoints of every bracket, and reports
what it finds until the handler decides to stop.

## Main definitions

* `Probe.Observes`: a probe whose samples and values are those of two functions.
* `NarrowingCalls`, `Refines`: the calls and the answer of a bisection.
* `Course`: everything that a scan can do, with its calls and its answer.

## Main results

* `Probe.Observes.records_bisect`: a bisection ends where its outline does.
* `Probe.Observes.records_scanAlong`: a scan takes a course.
* `Course.reported`: the course of a scan reports its outline.
* `Course.eq_answer`, `Course.eq_verdict`: if the handler has a fixed answer to every finding, or
  always continues, then the answer of a scan is that of its outline.
-/

namespace TrajectoryEvents

variable {σ S α : Type}

/-! ### Looking at an epoch -/

/-- The samples of a probe are those of `f` and its values those of `g`, whatever notes it takes. -/
structure Probe.Observes (p : Probe σ S) (f : Epoch → S) (g : S → Except EventError Float) :
    Prop where
  sample : ∀ t m, (p.sample t m).1 = f t
  value : ∀ s m, ((p.g s).run m).1 = g s

/-- The calls with which a search looks at an epoch. -/
def look (f : Epoch → S) (g : S → Except EventError Float) (t : Epoch) : List (Call S) :=
  [.sample t (f t), .value (f t) (g (f t))]

/-- The calls of a bisection: it looks at midpoints, and then may sample the epoch found. -/
def NarrowingCalls (f : Epoch → S) (g : S → Except EventError Float) (threshold : Float)
    (permitted : UInt64) (n : ℕ) (b : Bracket) (calls : List (Call S)) : Prop :=
  ∃ last, calls = (midpoints (fun t => g (f t)) threshold n b).flatMap (look f g) ++ last ∧
    (last = [] ∨ ∃ e, narrow (fun t => g (f t)) threshold permitted n b = .ok e ∧
      last = [.sample e (f e)])

namespace Probe.Observes

open SearchM

variable {p : Probe σ S} {f : Epoch → S} {g : S → Except EventError Float}

/-- A probe that observes has the values of its function. -/
theorem records_value (hp : p.Observes f g) (s : S) :
    Records (p.recorded.g s) (p.g s) fun r calls => r = g s ∧ calls = [.value s (g s)] := by
  refine (p.records_value s).imp ?_
  rintro _ _ ⟨m, rfl, rfl⟩
  rw [hp.value]
  exact ⟨rfl, rfl⟩

/-- A computation that goes on after a look at an epoch, if there is a value. -/
theorem records_look (hp : p.Observes f g) {t : Epoch}
    {k' : S → Float → SearchM (σ × List (Call S)) α} {k : S → Float → SearchM σ α}
    {P : Except EventError α → List (Call S) → Prop}
    (hk : ∀ v, g (f t) = .ok v →
      Records (k' (f t) v) (k (f t) v) fun r calls => P r (look f g t ++ calls))
    (he : ∀ e, g (f t) = .error e → P (.error e) (look f g t)) :
    Records (liftM (p.recorded.sample t) >>= fun s => p.recorded.g s >>= k' s :
        SearchM (σ × List (Call S)) α)
      (liftM (p.sample t) >>= fun s => p.g s >>= k s) P := by
  refine p.records_look ?_ ?_
  · intro m m' v hv
    rw [hp.sample, hp.value] at hv
    rw [hp.sample, ← hv]
    exact hk v hv
  · intro m m' e he'
    rw [hp.sample, hp.value] at he'
    rw [hp.sample, ← he']
    exact he e he'

/-! ### Bisections -/

/-- What is left of a bisection once the late end of the bracket is the epoch found. -/
private theorem records_lateEnd (hp : p.Observes f g) {threshold : Float} {permitted : UInt64}
    {n : ℕ} {b : Bracket}
    (hn : narrow (fun t => g (f t)) threshold permitted n b = .ok b.late)
    (hm : midpoints (fun t => g (f t)) threshold n b = []) :
    Records (p.recorded.lateEnd b) (p.lateEnd b) fun r calls =>
      r = (narrow (fun t => g (f t)) threshold permitted n b).map (fun t => (t, f t)) ∧
        NarrowingCalls f g threshold permitted n b calls := by
  refine p.records_lateEnd fun m => ?_
  rw [hp.sample]
  refine ⟨by rw [hn]; rfl, [.sample b.late (f b.late)], ?_, .inr ⟨b.late, hn, rfl⟩⟩
  rw [hm]
  rfl

/-- A bisection ends where its outline does. -/
theorem records_bisect (hp : p.Observes f g) (threshold : Float) (permitted : UInt64) (n : ℕ)
    (b : Bracket) :
    Records (p.recorded.bisect threshold permitted n b) (p.bisect threshold permitted n b)
      fun r calls =>
        r = (narrow (fun t => g (f t)) threshold permitted n b).map (fun t => (t, f t)) ∧
          NarrowingCalls f g threshold permitted n b calls := by
  induction n generalizing b with
  | zero =>
    by_cases hw : b.width ≤ threshold
    · simp only [bisect, if_pos hw]
      exact hp.records_lateEnd (by simp [narrow, hw]) rfl
    -- no halvings are left
    · simp only [bisect, if_neg hw]
      refine records_throw ⟨by simp [narrow, hw, Except.map], [], rfl, .inl rfl⟩
  | succ n ih =>
    by_cases hw : b.width ≤ threshold
    · simp only [bisect, if_pos hw]
      exact hp.records_lateEnd (by simp [narrow, hw]) (by simp [midpoints, hw])
    by_cases ht : b.IsTight
    · simp only [bisect, if_neg hw, if_pos ht]
      exact hp.records_lateEnd (by simp [narrow, ht]) (by simp [midpoints, ht])
    simp only [bisect, narrow, midpoints, NarrowingCalls, if_neg hw, if_neg ht]
    refine hp.records_look ?_ ?_
    · intro v hv
      simp only [hv]
      by_cases h0 : (v == 0.0) = true
      · simp only [if_pos h0]
        exact records_pure ⟨rfl, [], by simp, .inl rfl⟩
      · simp only [if_neg h0]
        refine (ih (b.half v)).imp ?_
        rintro r calls ⟨hr, last, hcalls, hlast⟩
        exact ⟨hr, last, by simp [hcalls], hlast⟩
    · intro e he
      simp only [he]
      exact ⟨rfl, [], by simp, .inl rfl⟩

end Probe.Observes

/-! ### Scans -/

/-- How a bracket is narrowed down: the answer, and the calls. -/
structure Refines (f : Epoch → S) (g : S → Except EventError Float) (settings : Settings)
    (b : Bracket) (r : Except EventError Epoch) (calls : List (Call S)) : Prop where
  answer : refined (fun t => g (f t)) settings b = r
  calls : NarrowingCalls f g settings.threshold settings.maxIterationCount
    settings.maxIterationCount.toNat b calls

/-- An event that a probe reports of a finding, in some memory. -/
def Probe.Reports (p : Probe σ S) (f : Epoch → S) (x : Finding) (event : Occurrence S) : Prop :=
  ∃ m, event = (p.report x.epoch (f x.epoch) x.increasing m).1

/-- What a handler leaves of a finding matches it. -/
theorem Probe.Reports.matches {p : Probe σ S} {f : Epoch → S} {x : Finding} {event : Occurrence S}
    (h : p.Reports f x event) : x.Matches f event := by
  obtain ⟨m, rfl⟩ := h
  rw [Probe.run_report]
  by_cases h : (p.consult (f x.epoch) x.increasing m).1 = .resetState
  · rw [if_pos h]
    exact ⟨rfl, rfl, rfl, iff_of_true rfl rfl⟩
  · rw [if_neg h]
    exact ⟨rfl, rfl, rfl, iff_of_false nofun h⟩

/-- Everything that a scan along the given epochs can do after a sample with a value, with its calls
and its answer. At every epoch it looks first. If the value crosses zero then the bracket is
narrowed down, and the handler decides about the event. A failure or a decision to stop is the
end. -/
inductive Course (p : Probe σ S) (f : Epoch → S) (g : S → Except EventError Float)
    (settings : Settings) : List Epoch → Epoch → Float → List (Call S) →
      Except EventError (List (Occurrence S)) → Prop
  | done {a v} : Course p f g settings [] a v [] (.ok [])
  | failed {b rest a v e} (value : g (f b) = .error e) :
    Course p f g settings (b :: rest) a v (look f g b) (.error e)
  | quiet {b rest a v w calls r} (value : g (f b) = .ok w) (flat : ¬ Crosses v w)
    (later : Course p f g settings rest b w calls r) :
    Course p f g settings (b :: rest) a v (look f g b ++ calls) r
  | unresolved {b rest a v w calls e} (value : g (f b) = .ok w) (crosses : Crosses v w)
    (refines : Refines f g settings ⟨a, v, b⟩ (.error e) calls) :
    Course p f g settings (b :: rest) a v (look f g b ++ calls) (.error e)
  | stopped {b rest a v w calls epoch event} (value : g (f b) = .ok w) (crosses : Crosses v w)
    (refines : Refines f g settings ⟨a, v, b⟩ (.ok epoch) calls)
    (reports : p.Reports f ⟨epoch, decide (v < w)⟩ event) (stop : event.action = .stop) :
    Course p f g settings (b :: rest) a v (look f g b ++ (calls ++ event.calls)) (.ok [event])
  | found {b rest a v w calls epoch event later r} (value : g (f b) = .ok w)
    (crosses : Crosses v w) (refines : Refines f g settings ⟨a, v, b⟩ (.ok epoch) calls)
    (reports : p.Reports f ⟨epoch, decide (v < w)⟩ event) (go : event.action ≠ .stop)
    (hlater : Course p f g settings rest b w later r) :
    Course p f g settings (b :: rest) a v (look f g b ++ (calls ++ (event.calls ++ later)))
      (r.map (event :: ·))

namespace Probe.Observes

open SearchM

variable {p : Probe σ S} {f : Epoch → S} {g : S → Except EventError Float}

/-- A bracket is narrowed down to an epoch and the state there. -/
theorem records_refine (hp : p.Observes f g) (settings : Settings) (b : Bracket) :
    Records (p.recorded.refine settings b) (p.refine settings b) fun r calls =>
      ∃ e, Refines f g settings b e calls ∧ r = e.map fun t => (t, f t) := by
  refine (hp.records_bisect settings.threshold settings.maxIterationCount _ b).imp ?_
  rintro _ calls ⟨rfl, hcalls⟩
  exact ⟨_, ⟨rfl, hcalls⟩, rfl⟩

/-- A scan takes a course. -/
theorem records_scanAlong (hp : p.Observes f g) (settings : Settings) (ts : List Epoch) (a : Epoch)
    (v : Float) :
    Records (p.recorded.scanAlong settings ts a v) (p.scanAlong settings ts a v)
      fun r calls => Course p f g settings ts a v calls r := by
  induction ts generalizing a v with
  | nil => exact records_pure .done
  | cons b rest ih =>
    simp only [scanAlong, round, bind_assoc]
    refine hp.records_look ?_ fun e he => .failed he
    intro w hw
    by_cases hc : Crosses v w
    · simp only [if_pos hc, bind_assoc, pure_bind]
      refine (hp.records_refine settings ⟨a, v, b⟩).bind ?_ ?_
      · rintro _ calls ⟨_ | epoch, hr, ⟨⟩⟩
        refine (p.records_report epoch (f epoch) (decide (v < w))).bind ?_ ?_
        · rintro event _ ⟨_, hm, ⟨⟩, rfl⟩
          by_cases hstop : event.action = .stop
          · simp only [if_pos hstop]
            refine records_pure ?_
            rw [List.append_nil]
            exact .stopped hw hc hr hm hstop
          · simp only [if_neg hstop]
            refine (ih b w).bind ?_ ?_
            · intro events later hlater
              refine records_pure ?_
              rw [List.append_nil]
              exact .found hw hc hr hm hstop hlater
            · intro e later hlater
              exact .found hw hc hr hm hstop hlater
        -- a report is never an error
        · rintro e _ ⟨_, -, ⟨⟩, -⟩
      · rintro e calls ⟨_ | _, hr, ⟨⟩⟩
        exact .unresolved hw hc hr
    · simp only [if_neg hc]
      exact (ih b w).imp fun r calls => .quiet hw hc

end Probe.Observes

/-! ### What comes of an outline -/

section Outlines

variable {p : Probe σ S} {f : Epoch → S} {g : S → Except EventError Float} {settings : Settings}
  {ts : List Epoch} {a : Epoch} {v : Float} {calls : List (Call S)}
  {r : Except EventError (List (Occurrence S))}

/-- The course of a scan reports its outline. -/
theorem Course.reported (h : Course p f g settings ts a v calls r) :
    Reported f (outline (fun t => g (f t)) settings ts a v) r := by
  induction h with
  | done => exact .done
  | failed value =>
    simp only [outline, value]
    exact .failed _
  | quiet value flat _ ih =>
    simp only [outline, value, if_neg flat]
    exact ih
  | unresolved value crosses refines =>
    simp only [outline, value, if_pos crosses, refines.answer]
    exact .failed _
  | stopped value crosses refines reports stop =>
    simp only [outline, value, if_pos crosses, refines.answer]
    exact .stopped reports.matches stop
  | @found _ _ _ _ _ _ _ _ _ r value crosses refines reports go _ ih =>
    simp only [outline, value, if_pos crosses, refines.answer]
    cases r with
    | error e => exact .lost _ ih
    | ok events => exact .found reports.matches go ih

/-- Unless it asks the handler, a call samples the trajectory `f`, or asks for the value of `g` at a
state of the trajectory. -/
def Call.Observes (f : Epoch → S) (g : S → Except EventError Float) : Call S → Prop
  | .sample t s => s = f t
  | .value s x => ∃ t, s = f t ∧ x = g (f t)
  | .consult _ _ _ | .replace _ _ => True

theorem observes_of_mem_look {t : Epoch} : ∀ c ∈ look f g t, c.Observes f g := by
  simp only [look, List.forall_mem_cons]
  exact ⟨rfl, ⟨t, rfl, rfl⟩, nofun⟩

/-- A bisection looks at every midpoint. -/
theorem NarrowingCalls.look_infix {threshold : Float} {permitted : UInt64} {n : ℕ} {b : Bracket}
    (h : NarrowingCalls f g threshold permitted n b calls) {t : Epoch}
    (ht : t ∈ midpoints (fun t => g (f t)) threshold n b) : look f g t <:+: calls := by
  obtain ⟨last, rfl, -⟩ := h
  obtain ⟨before, after, heq⟩ := List.append_of_mem ht
  refine ⟨before.flatMap (look f g), after.flatMap (look f g) ++ last, ?_⟩
  simp [heq]

/-- A call of a bisection belongs to a look at some epoch, or samples one. -/
theorem NarrowingCalls.mem_cases {threshold : Float} {permitted : UInt64} {n : ℕ} {b : Bracket}
    (h : NarrowingCalls f g threshold permitted n b calls) {c : Call S} (hc : c ∈ calls) :
    (∃ t, c ∈ look f g t) ∨ ∃ t, c = .sample t (f t) := by
  obtain ⟨last, rfl, hlast⟩ := h
  rcases List.mem_append.1 hc with hc | hc
  · obtain ⟨t, -, hc⟩ := List.mem_flatMap.1 hc
    exact .inl ⟨t, hc⟩
  · rcases hlast with rfl | ⟨e, -, rfl⟩
    · cases hc
    · exact .inr ⟨e, List.mem_singleton.1 hc⟩

theorem NarrowingCalls.observes {threshold : Float} {permitted : UInt64} {n : ℕ} {b : Bracket}
    (h : NarrowingCalls f g threshold permitted n b calls) : ∀ c ∈ calls, c.Observes f g := by
  intro c hc
  rcases h.mem_cases hc with ⟨t, hc⟩ | ⟨t, rfl⟩
  · exact observes_of_mem_look c hc
  · rfl

/-- A look at an epoch does not ask the handler. -/
theorem asksHandler_of_mem_look {t : Epoch} : ∀ c ∈ look f g t, c.asksHandler = false := by
  simp [look, Call.asksHandler]

/-- Nor does a bisection. -/
theorem NarrowingCalls.asksHandler {threshold : Float} {permitted : UInt64} {n : ℕ} {b : Bracket}
    (h : NarrowingCalls f g threshold permitted n b calls) :
    ∀ c ∈ calls, c.asksHandler = false := by
  intro c hc
  rcases h.mem_cases hc with ⟨t, hc⟩ | ⟨t, rfl⟩
  · exact asksHandler_of_mem_look c hc
  · rfl

theorem Occurrence.observes_calls (event : Occurrence S) : ∀ c ∈ event.calls, c.Observes f g := by
  intro c hc
  simp only [Occurrence.calls, List.mem_cons, Option.mem_toList, Option.map_eq_some_iff] at hc
  rcases hc with rfl | ⟨s, -, rfl⟩ <;> trivial

/-- Along its course, a scan samples the trajectory and asks for values of the detector. -/
theorem Course.observes (h : Course p f g settings ts a v calls r) :
    ∀ c ∈ calls, c.Observes f g := by
  induction h with
  | done => nofun
  | failed => exact observes_of_mem_look
  | quiet _ _ _ ih => exact List.forall_mem_append.2 ⟨observes_of_mem_look, ih⟩
  | unresolved _ _ refines =>
    exact List.forall_mem_append.2 ⟨observes_of_mem_look, refines.calls.observes⟩
  | stopped _ _ refines =>
    simp only [List.forall_mem_append]
    exact ⟨observes_of_mem_look, refines.calls.observes, Occurrence.observes_calls _⟩
  | found _ _ refines _ _ _ ih =>
    simp only [List.forall_mem_append]
    exact ⟨observes_of_mem_look, refines.calls.observes, Occurrence.observes_calls _, ih⟩

/-- A probe whose handler answers to every finding as `report` says, whatever it remembers, and
never stops. -/
def Probe.Answers (p : Probe σ S) (f : Epoch → S) (report : Finding → Occurrence S) : Prop :=
  ∀ x event, p.Reports f x event → event = report x ∧ event.action ≠ .stop

/-- If the handler has a fixed answer to every finding, then a scan has a fixed answer as well. -/
theorem Course.eq_answer (h : Course p f g settings ts a v calls r)
    {report : Finding → Occurrence S} (hp : p.Answers f report) :
    r = (outline (fun t => g (f t)) settings ts a v).answer report := by
  induction h with
  | done => rfl
  | failed value => simp only [outline, value, Outline.answer]
  | quiet value flat _ ih => simpa only [outline, value, if_neg flat] using ih
  | unresolved value crosses refines =>
    simp only [outline, value, if_pos crosses, refines.answer, Outline.answer]
  | stopped _ _ _ reports stop => exact absurd stop (hp _ _ reports).2
  | found value crosses refines reports _ _ ih =>
    simp only [outline, value, if_pos crosses, refines.answer, ih, (hp _ _ reports).1,
      Outline.answer]
    cases (outline (fun t => g (f t)) settings _ _ _).failure <;> rfl

/-- A probe whose handler always continues. -/
def Probe.Continues (p : Probe σ S) : Prop :=
  ∀ s increasing m, (p.consult s increasing m).1 = .proceed

/-- A handler that always continues lets every finding pass. -/
theorem Probe.Continues.answers (hp : p.Continues) (f : Epoch → S) :
    p.Answers f (Finding.passed f) := by
  rintro x _ ⟨m, rfl⟩
  rw [Probe.run_report, hp]
  exact ⟨rfl, nofun⟩

/-- If the handler always continues, the answer of a scan is the verdict of its outline. -/
theorem Course.eq_verdict (h : Course p f g settings ts a v calls r) (hp : p.Continues) :
    r = (outline (fun t => g (f t)) settings ts a v).verdict f :=
  h.eq_answer (hp.answers f)

end Outlines

end TrajectoryEvents
