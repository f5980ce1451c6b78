import TrajectoryEvents.Proofs.Search.Run

/-!
# Everything that a search can do

What a search does depends on the answers that it gets, and the trajectory may give any. This module
says once what a bisection, a scan and a search can do, with the calls that they make: one case for
each way in which a round can end. What holds of every search, whatever it is told, follows by
induction.

## Main definitions

* `Narrows`: everything that a bisection can do.
* `Scans`: everything that a scan can do.
* `Proceeds`: everything that a search can do.
* `Concludes`: how the calls of a computation end, and what the answer is.

## Main results

* `Proceeds.concludes`: a value that fails is the last call of a search, and its failure the answer.
* `Probe.records_bisect`, `Probe.records_scan`, `Probe.records_search`: bisections, scans and
  searches do nothing else.
* `Detector.proceeds_locate`: nor does a search of an interval.
-/

namespace TrajectoryEvents

variable {σ S α β : Type}

/-! ### Ways to go -/

/-- Everything that a bisection of a bracket with at most the given number of halvings can do, with
its calls and its answer. -/
inductive Narrows (threshold : Float) (permitted : UInt64) :
    ℕ → Bracket → List (Call S) → Except EventError (Epoch × S) → Prop
  | narrow {n b s} (narrow : b.width ≤ threshold) :
    Narrows threshold permitted n b [.sample b.late s] (.ok (b.late, s))
  | exhausted {b} (wide : ¬ b.width ≤ threshold) :
    Narrows threshold permitted 0 b [] (.error (.convergenceFailure permitted))
  | tight {n b s} (tight : b.IsTight) :
    Narrows threshold permitted (n + 1) b [.sample b.late s] (.ok (b.late, s))
  | failed {n b s e} (inside : ¬ b.IsTight) :
    Narrows threshold permitted (n + 1) b [.sample b.midpoint s, .value s (.error e)] (.error e)
  | zero {n b s v} (inside : ¬ b.IsTight) (zero : (v == 0.0) = true) :
    Narrows threshold permitted (n + 1) b [.sample b.midpoint s, .value s (.ok v)]
      (.ok (b.midpoint, s))
  | half {n b s v calls r} (wide : ¬ b.width ≤ threshold) (inside : ¬ b.IsTight)
    (later : Narrows threshold permitted n (b.half v) calls r) :
    Narrows threshold permitted (n + 1) b
      (.sample b.midpoint s :: .value s (.ok v) :: calls) r

/-- Everything that a scan up to the end of an interval can do after a sample with a value, with its
calls and its answer. -/
inductive Scans (settings : Settings) (finish : Epoch) :
    Epoch → Float → List (Call S) → Except EventError (List (Occurrence S)) → Prop
  | done {a v} (finished : ¬ a < finish) : Scans settings finish a v [] (.ok [])
  | failed {a v s e} (ahead : a < finish) :
    Scans settings finish a v
      [.sample (nextSample settings.maxCheckInterval finish a) s, .value s (.error e)] (.error e)
  | quiet {a v s w calls r} (ahead : a < finish) (flat : ¬ Crosses v w)
    (later : Scans settings finish (nextSample settings.maxCheckInterval finish a) w calls r) :
    Scans settings finish a v
      (.sample (nextSample settings.maxCheckInterval finish a) s :: .value s (.ok w) :: calls) r
  | unresolved {a v s w calls e} (ahead : a < finish) (crosses : Crosses v w)
    (narrows : Narrows settings.threshold settings.maxIterationCount
      settings.maxIterationCount.toNat ⟨a, v, nextSample settings.maxCheckInterval finish a⟩ calls
      (.error e)) :
    Scans settings finish a v
      (.sample (nextSample settings.maxCheckInterval finish a) s :: .value s (.ok w) :: calls)
      (.error e)
  | stopped {a v s w calls} {event : Occurrence S} (ahead : a < finish) (crosses : Crosses v w)
    (narrows : Narrows settings.threshold settings.maxIterationCount
      settings.maxIterationCount.toNat ⟨a, v, nextSample settings.maxCheckInterval finish a⟩ calls
      (.ok (event.epoch, event.state))) (stop : event.action = .stop) :
    Scans settings finish a v
      (.sample (nextSample settings.maxCheckInterval finish a) s :: .value s (.ok w) ::
        (calls ++ event.calls)) (.ok [event])
  | found {a v s w calls later r} {event : Occurrence S} (ahead : a < finish)
    (crosses : Crosses v w)
    (narrows : Narrows settings.threshold settings.maxIterationCount
      settings.maxIterationCount.toNat ⟨a, v, nextSample settings.maxCheckInterval finish a⟩ calls
      (.ok (event.epoch, event.state))) (go : event.action ≠ .stop)
    (hlater : Scans settings finish (nextSample settings.maxCheckInterval finish a) w later r) :
    Scans settings finish a v
      (.sample (nextSample settings.maxCheckInterval finish a) s :: .value s (.ok w) ::
        (calls ++ (event.calls ++ later))) (r.map (event :: ·))

/-- Everything that a search of an interval can do, unless it is refused: it looks at the start of
the interval, and scans on from there if there is a value. -/
inductive Proceeds (settings : Settings) (start finish : Epoch) :
    List (Call S) → Except EventError (List (Occurrence S)) → Prop
  | failed {s e} : Proceeds settings start finish [.sample start s, .value s (.error e)] (.error e)
  | scanned {s v calls r} (scans : Scans settings finish start v calls r) :
    Proceeds settings start finish (.sample start s :: .value s (.ok v) :: calls) r

/-! ### How it ends -/

/-- The failure of a value. -/
def Call.failure? : Call S → Option EventError
  | .value _ (.error e) => some e
  | _ => none

/-- How the calls of a computation end, and what the answer is. A value that fails is the last call,
and its failure is the answer. If no value fails, then the computation succeeds unless it runs out
of bisections. -/
inductive Concludes (permitted : UInt64) : List (Call S) → Except EventError α → Prop
  | done {calls a} (sound : ∀ c ∈ calls, c.failure? = none) : Concludes permitted calls (.ok a)
  | exhausted {calls} (sound : ∀ c ∈ calls, c.failure? = none) :
    Concludes permitted calls (.error (.convergenceFailure permitted))
  | failed {calls s e} (sound : ∀ c ∈ calls, c.failure? = none) :
    Concludes permitted (calls ++ [.value s (.error e)]) (.error e)

namespace Concludes

variable {permitted : UInt64} {before calls : List (Call S)} {r : Except EventError α}

/-- Calls without a failure may come before. -/
theorem append (hbefore : ∀ c ∈ before, c.failure? = none) (h : Concludes permitted calls r) :
    Concludes permitted (before ++ calls) r := by
  cases h with
  | done sound => exact .done (List.forall_mem_append.2 ⟨hbefore, sound⟩)
  | exhausted sound => exact .exhausted (List.forall_mem_append.2 ⟨hbefore, sound⟩)
  | failed sound =>
    rw [← List.append_assoc]
    exact .failed (List.forall_mem_append.2 ⟨hbefore, sound⟩)

/-- What is made of a success does not matter. -/
theorem map (h : Concludes permitted calls r) (f : α → β) :
    Concludes permitted calls (r.map f) := by
  cases h with
  | done sound => exact .done sound
  | exhausted sound => exact .exhausted sound
  | failed sound => exact .failed sound

/-- No value fails if the computation succeeds. -/
theorem sound_of_ok {a : α} (h : Concludes permitted calls (.ok a : Except EventError α)) :
    ∀ c ∈ calls, c.failure? = none := by
  cases h with
  | done sound => exact sound

/-- A failure is that of any computation. -/
theorem of_error {e : EventError} (h : Concludes permitted calls (.error e : Except EventError α)) :
    Concludes permitted calls (.error e : Except EventError β) := by
  cases h with
  | exhausted sound => exact .exhausted sound
  | failed sound => exact .failed sound

/-- A value that fails is the last call, and its failure is the answer. -/
theorem exists_of_mem (h : Concludes permitted calls r) {s : S} {e : EventError}
    (hmem : .value s (.error e) ∈ calls) :
    r = .error e ∧ ∃ before, calls = before ++ [.value s (.error e)] ∧
      ∀ c ∈ before, c.failure? = none := by
  cases h with
  | done sound => cases sound _ hmem
  | exhausted sound => cases sound _ hmem
  | failed sound =>
    rcases List.mem_append.1 hmem with hmem | hmem
    · cases sound _ hmem
    · cases List.mem_singleton.1 hmem
      exact ⟨rfl, _, rfl, sound⟩

end Concludes

/-- The calls of an event are without a failure. -/
theorem Occurrence.failure_of_mem_calls (event : Occurrence S) :
    ∀ c ∈ event.calls, c.failure? = none := by
  simp only [Occurrence.calls, List.forall_mem_cons, Option.mem_toList, Option.map_eq_some_iff]
  refine ⟨rfl, ?_⟩
  rintro _ ⟨s, -, rfl⟩
  rfl

section Failures

variable {settings : Settings} {finish a : Epoch} {v : Float} {calls : List (Call S)}

/-- A look at an epoch where there is a value is without a failure. -/
private theorem sound_look (t : Epoch) (s : S) (v : Float) :
    ∀ c ∈ [Call.sample t s, .value s (.ok v)], c.failure? = none := by
  simp [Call.failure?]

/-- A look at an epoch where there is no value is the end. -/
private theorem concludes_look (permitted : UInt64) (t : Epoch) (s : S) (e : EventError) :
    Concludes permitted [.sample t s, .value s (.error e)] (.error e : Except EventError α) := by
  have hsound : ∀ c ∈ [Call.sample t s], c.failure? = none := by simp [Call.failure?]
  exact .failed hsound

/-- How a bisection ends. -/
theorem Narrows.concludes {threshold : Float} {permitted : UInt64} {n : ℕ} {b : Bracket}
    {r : Except EventError (Epoch × S)} (h : Narrows threshold permitted n b calls r) :
    Concludes permitted calls r := by
  induction h with
  | narrow | tight => exact .done (by simp [Call.failure?])
  | exhausted => exact .exhausted nofun
  | failed => exact concludes_look _ _ _ _
  | zero => exact .done (sound_look _ _ _)
  | half _ _ _ ih => exact ih.append (sound_look _ _ _)

/-- How a scan ends. -/
theorem Scans.concludes {r : Except EventError (List (Occurrence S))}
    (h : Scans settings finish a v calls r) : Concludes settings.maxIterationCount calls r := by
  induction h with
  | done => exact .done nofun
  | failed => exact concludes_look _ _ _ _
  | quiet _ _ _ ih => exact ih.append (sound_look _ _ _)
  | unresolved _ _ narrows => exact narrows.concludes.of_error.append (sound_look _ _ _)
  | @stopped _ _ _ _ _ event _ _ narrows =>
    have hsound := narrows.concludes.sound_of_ok
    refine Concludes.append (sound_look _ _ _) (.append hsound ?_)
    exact .done event.failure_of_mem_calls
  | @found _ _ _ _ _ _ _ event _ _ narrows _ _ ih =>
    have hsound := narrows.concludes.sound_of_ok
    refine Concludes.append (sound_look _ _ _) (.append hsound ?_)
    exact (ih.map _).append event.failure_of_mem_calls

/-- How a search ends. -/
theorem Proceeds.concludes {start : Epoch} {r : Except EventError (List (Occurrence S))}
    (h : Proceeds settings start finish calls r) :
    Concludes settings.maxIterationCount calls r := by
  cases h with
  | failed => exact concludes_look _ _ _ _
  | scanned scans => exact scans.concludes.append (sound_look _ _ _)

end Failures

/-! ### Probes -/

namespace Probe

open SearchM

variable (p : Probe σ S)

/-- A bisection narrows its bracket. -/
theorem records_bisect (threshold : Float) (permitted : UInt64) (n : ℕ) (b : Bracket) :
    Records (p.recorded.bisect threshold permitted n b) (p.bisect threshold permitted n b)
      fun r calls => Narrows threshold permitted n b calls r := by
  induction n generalizing b with
  | zero =>
    simp only [bisect]
    split
    next hw => exact p.records_lateEnd fun _ => .narrow hw
    next hw => exact records_throw (.exhausted hw)
  | succ n ih =>
    simp only [bisect]
    split
    next hw => exact p.records_lateEnd fun _ => .narrow hw
    next hw =>
      split
      next ht => exact p.records_lateEnd fun _ => .tight ht
      next ht =>
        refine p.records_look (fun m m' v _ => ?_) fun m m' e _ => .failed ht
        split
        next h0 => exact records_pure (.zero ht h0)
        next => exact (ih (b.half v)).imp fun r calls => .half hw ht

/-- A scan goes its way. -/
theorem records_scan (settings : Settings) (finish a : Epoch) (v : Float) :
    Records (p.recorded.scan settings finish a v) (p.scan settings finish a v)
      fun r calls => Scans settings finish a v calls r := by
  induction a using sampling_induction settings.maxCheckInterval finish generalizing v with
  | next a h ih =>
    rw [scan, dif_pos h, scan, dif_pos h]
    refine p.records_look (fun m m' w _ => ?_) fun m m' e _ => .failed h
    split
    next hc =>
      refine (p.records_bisect _ _ _ ⟨a, v, nextSample settings.maxCheckInterval finish a⟩).bind
        ?_ fun e calls hnarrows => .unresolved h hc hnarrows
      rintro ⟨epoch, state⟩ calls hnarrows
      refine (p.records_report epoch state (decide (v < w))).bind ?_ ?_
      · rintro event _ ⟨_, ⟨m, hm⟩, ⟨⟩, rfl⟩
        obtain ⟨rfl, rfl⟩ : event.epoch = epoch ∧ event.state = state :=
          hm ▸ p.report_epoch_state epoch state _ m
        split
        next hstop =>
          refine records_pure ?_
          rw [List.append_nil]
          exact .stopped h hc hnarrows hstop
        next hgo =>
          refine (ih w).bind ?_ fun e later hlater => .found h hc hnarrows hgo hlater
          intro events later hlater
          refine records_pure ?_
          rw [List.append_nil]
          exact .found h hc hnarrows hgo hlater
      · rintro e _ ⟨_, -, ⟨⟩, -⟩
    next hc => exact (ih w).imp fun r calls => .quiet h hc
  | done a h =>
    rw [scan, dif_neg h, scan, dif_neg h]
    exact records_pure (.done h)

/-- A search asks for a value at the start, and scans on from there. -/
theorem records_search (settings : Settings) (start finish : Epoch) (s : S) :
    Records (p.recorded.search settings start finish s) (p.search settings start finish s)
      fun r calls => Proceeds settings start finish (.sample start s :: calls) r := by
  refine (p.records_value s).bind ?_ ?_
  · rintro v _ ⟨m, -, rfl⟩
    exact (p.records_scan settings finish start v).imp fun r calls => .scanned
  · rintro e _ ⟨m, -, rfl⟩
    exact .failed

end Probe

/-- A search that is not refused proceeds, whatever the trajectory is. -/
theorem Detector.proceeds_locate {ι κ τ : Type} [Indicator ι S] [Snapshot S] [CustomHandler κ S τ]
    [Initializable ι S τ] (d : Detector ι κ) (trajectory : Epoch → StateM τ S)
    {start finish : Epoch} (h : ¬ finish ≤ start) (m : Memory τ) :
    Proceeds d.settings start finish (d.calls trajectory start finish m)
      ((d.locate trajectory start finish).run m).1.1 := by
  obtain ⟨calls, hcalls, hproceeds⟩ :=
    d.exists_calls_eq h m (Probe.records_search _ d.settings start finish _)
  rw [hcalls]
  exact hproceeds

end TrajectoryEvents
