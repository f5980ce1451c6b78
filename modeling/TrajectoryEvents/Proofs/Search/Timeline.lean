import TrajectoryEvents.Proofs.Detector.Watching
import TrajectoryEvents.Proofs.Search.Exactness

/-!
# What is asked of a detector, and when

A search prepares its detector before it asks for the first value, and it prepares every node once.
From then on it asks the handler of the detector itself, and nobody else: a handler below it is
prepared, but it is never told of an event.

To see the order of both, every call of a search is dated with what had been noticed of the handlers
and indicators before it.

## Main definitions

* `Probe.dated`: a probe that keeps a dated account.
* `Detector.timeline`: the calls of a search, dated with the notices.
* `Notice.Decides`: a notice about a decision of a given handler.

## Main results

* `Detector.run_locateDated`: a search does the same when its calls are dated.
* `Detector.timeline_snd`: the timeline has the calls of the search.
* `Detector.locate_prepares`: preparing comes first, once for every node, and then only the handler
  of the detector is asked.
-/

namespace TrajectoryEvents

variable {σ S N α C : Type}

/-! ### Dated accounts -/

/-- The computation `x`, with its answer added to an account, next to what `seen` tells of the
memory right before it. -/
def dated (seen : σ → N) (x : StateM σ α) (call : α → C) : StateM (σ × List (N × C)) α := fun m =>
  noted x (fun a => (seen m.1, call a)) m

/-- A probe that keeps a dated account besides. -/
def Probe.dated (p : Probe σ S) (seen : σ → N) : Probe (σ × List (N × Call S)) S where
  sample t := TrajectoryEvents.dated seen (p.sample t) (.sample t)
  g s := ExceptT.mk (TrajectoryEvents.dated seen (p.g s).run (.value s))
  consult s increasing :=
    TrajectoryEvents.dated seen (p.consult s increasing) (.consult s increasing)
  replace s := TrajectoryEvents.dated seen (p.replace s) (.replace s)

/-- A probe answers the same when its calls are dated. -/
theorem Probe.alike_dated (p : Probe σ S) (seen : σ → N) :
    Alike (fun m m' => m.1 = m') (p.dated seen) p := by
  refine ⟨fun t => ?_, fun s => ?_, fun s increasing => ?_, fun s => ?_⟩ <;>
    · rintro m _ rfl
      exact ⟨rfl, rfl⟩

/-! ### Notices with dates -/

section Notices

variable {ι κ τ : Type}

/-- A notice about a decision of the given handler. -/
def Notice.Decides (h : Handler κ) : Notice ι κ S → Prop
  | .eventOccurred handler _ _ _ _ | .resetState handler _ _ _ => handler = h
  | .handlerInit _ _ _ | .indicatorInit _ _ _ => False

/-- What a search keeps in memory when it is watched, and its calls are dated with the notices. -/
abbrev DatedMemory (ι κ S τ : Type) :=
  Memory (Memory τ × List (Notice ι κ S)) × List (List (Notice ι κ S) × Call S)

/-- A search that is under way: what has been noticed are the preparations `inits`, followed by
decisions of the handler `h`; and all calls but the first one were made after the preparations. -/
structure Underway (inits : List (Notice ι κ S)) (h : Handler κ)
    (first : List (Notice ι κ S) × Call S) (m : DatedMemory ι κ S τ) : Prop where
  notices : ∃ asked, m.1.custom.2 = inits ++ asked ∧ ∀ n ∈ asked, n.Decides h
  calls : ∃ later, m.2 = first :: later ∧ ∀ x ∈ later, inits <+: x.1

/-- A search stays under way with a question that leads to decisions of the handler only. -/
theorem Underway.dated {inits : List (Notice ι κ S)} {h : Handler κ}
    {first : List (Notice ι κ S) × Call S}
    {x : StateM (Memory (Memory τ × List (Notice ι κ S))) α} {call : α → Call S}
    (hx : ∀ m, ∃ asked, (x m).2.custom.2 = m.custom.2 ++ asked ∧ ∀ n ∈ asked, n.Decides h)
    (m : DatedMemory ι κ S τ) (hm : Underway inits h first m) :
    Underway inits h first (TrajectoryEvents.dated (·.custom.2) x call m).2 := by
  obtain ⟨⟨asked, hnotices, hasked⟩, later, hcalls, hlater⟩ := hm
  obtain ⟨more, hmore, hdecides⟩ := hx m.1
  refine ⟨⟨asked ++ more, ?_, List.forall_mem_append.2 ⟨hasked, hdecides⟩⟩,
    later ++ [(m.1.custom.2, call (x m.1).1)], ?_, ?_⟩
  · exact hmore.trans (by rw [hnotices, List.append_assoc])
  · exact congrArg (· ++ [(m.1.custom.2, call (x m.1).1)]) hcalls
  · refine List.forall_mem_append.2 ⟨hlater, List.forall_mem_singleton.2 ?_⟩
    exact hnotices ▸ List.prefix_append _ _

end Notices

/-! ### Searches -/

namespace Detector

variable {ι κ τ : Type} [Indicator ι S] [Snapshot S] [CustomHandler κ S τ]

/-- What a search asks for of a detector that is watched, dated with the notices. -/
def datedProbe (w : Detector (Watched ι) (Watched (Handler κ))) (trajectory : Epoch → StateM τ S) :
    Probe (DatedMemory ι κ S τ) S :=
  (w.probe (unwatched trajectory)).dated (·.custom.2)

section Ask

variable (trajectory : Epoch → StateM τ S)

/-- A search of a prepared detector stays under way. -/
theorem underway_search (d : Detector ι κ) (settings : Settings) (start finish : Epoch) (s : S)
    {inits : List (Notice ι κ S)} {first : List (Notice ι κ S) × Call S}
    {m : DatedMemory ι κ S τ} (hm : Underway inits d.handler first m) :
    Underway inits d.handler first
      (((d.watched.datedProbe trajectory).search settings start finish s).run m).2 := by
  have halike : Probe.Alike (fun m m' => m = m' ∧ Underway inits d.handler first m)
      (d.watched.datedProbe trajectory) (d.watched.datedProbe trajectory) := by
    rw [datedProbe, probe_watched]
    refine ⟨fun t => ?_, fun s => ?_, fun s increasing => ?_, fun s => ?_⟩
    -- samples and values are not noticed, and it is the handler of the detector that decides
    · exact .of_preserves (.dated fun m => ⟨[], (List.append_nil _).symm, nofun⟩)
    · exact .of_preserves (.dated fun m => ⟨[], (List.append_nil _).symm, nofun⟩)
    · exact .of_preserves (.dated fun m => ⟨_, rfl, List.forall_mem_singleton.2 rfl⟩)
    · exact .of_preserves (.dated fun m => ⟨_, rfl, List.forall_mem_singleton.2 rfl⟩)
  exact (halike.search settings start finish s).preserves hm

/-- The calls that are dated are those that are recorded. -/
theorem alike_datedProbe (d : Detector ι κ) :
    Probe.Alike (fun (m : DatedMemory ι κ S τ) (m' : Memory τ × List (Call S)) =>
        m.1.custom.1 = m'.1 ∧ m.2.map Prod.snd = m'.2)
      (d.watched.datedProbe trajectory) (d.probe trajectory).recorded := by
  rw [datedProbe, probe_watched]
  refine ⟨fun t => ?_, fun s => ?_, fun s increasing => ?_, fun s => ?_⟩ <;>
    · rintro m ⟨_, _⟩ ⟨rfl, rfl⟩
      exact ⟨rfl, rfl, List.map_append⟩

end Ask

variable [Initializable ι S τ] (d : Detector ι κ) (trajectory : Epoch → StateM τ S)
  {start finish : Epoch}

/-- A search of an interval that is watched, with its calls dated. -/
def locateDated (start finish : Epoch) :
    StateM (DatedMemory ι κ S τ)
      (Except EventError (List (Occurrence S)) × Detector (Watched ι) (Watched (Handler κ))) :=
  d.watched.locateBy (fun w => w.datedProbe trajectory)
    (fun w s target => unnoted (w.init s target)) start finish

/-- The calls of a search, each of them dated with what had been noticed before it. -/
def timeline (start finish : Epoch) (m : Memory τ) : List (List (Notice ι κ S) × Call S) :=
  ((d.locateDated trajectory start finish).run (⟨.empty, (m, [])⟩, [])).2.2

/-- A search samples the start of the interval and prepares every node once. Then it is the search
of the prepared detector. -/
theorem run_locateDated_eq (h : ¬ finish ≤ start) (m : Memory τ) :
    (d.locateDated trajectory start finish).run (⟨.empty, (m, [])⟩, []) =
      let s := (trajectory start m.custom).1
      let r := (d.init s finish).run (Memory.withCustom (trajectory start) m).2
      let w := ((r.1.watched.datedProbe trajectory).search r.1.watched.settings start finish s).run
        (⟨.empty, (r.2, d.inits s finish)⟩, [([], .sample start s)])
      ((w.1, r.1.watched), w.2) := by
  have hinit := d.run_init_watched (trajectory start m.custom).1 finish .empty
    (Memory.withCustom (trajectory start) m).2 []
  rw [List.nil_append] at hinit
  rw [locateDated, run_locateBy _ _ _ _ h]
  change (fun r : _ × Memory (Memory τ × List (Notice ι κ S)) =>
    (fun q : _ × DatedMemory ι κ S τ => ((q.1, r.1), q.2))
      (((r.1.datedProbe trajectory).search r.1.settings start finish
        (trajectory start m.custom).1).run
          (r.2, [([], .sample start (trajectory start m.custom).1)])))
    ((d.watched.init (trajectory start m.custom).1 finish).run
      ⟨.empty, ((Memory.withCustom (trajectory start) m).2, [])⟩) = _
  rw [hinit]

/-- A search does the same when its calls are dated: it has the same answer and leaves the same in
memory, next to the notices. -/
theorem run_locateDated (start finish : Epoch) (m : Memory τ) :
    ((d.locateDated trajectory start finish).run (⟨.empty, (m, [])⟩, [])).1 =
        (((d.locate trajectory start finish).run m).1.1,
          ((d.locate trajectory start finish).run m).1.2.watched) ∧
      ((d.locateDated trajectory start finish).run (⟨.empty, (m, [])⟩, [])).2.1.custom =
        (((d.locate trajectory start finish).run m).2, d.notices trajectory start finish m) := by
  have hstep : ((d.locateDated trajectory start finish).run (⟨.empty, (m, [])⟩, [])).1 =
        ((d.watched.locate (unwatched trajectory) start finish).run ⟨.empty, (m, [])⟩).1 ∧
      ((d.locateDated trajectory start finish).run (⟨.empty, (m, [])⟩, [])).2.1 =
        ((d.watched.locate (unwatched trajectory) start finish).run ⟨.empty, (m, [])⟩).2 :=
    inStep_locateBy _ _ (fun w s target => unnoted (w.init s target))
      (fun w s target => w.init s target) id
      (fun w => (w.probe (unwatched trajectory)).alike_dated (·.custom.2)) (fun _ => rfl)
      d.watched (fun s => .unnoted (d.watched.init s finish)) rfl
  obtain ⟨hanswer, hleft⟩ := d.run_locate_watched trajectory start finish m
  rw [hstep.1, hstep.2]
  exact ⟨hanswer, Prod.ext hleft rfl⟩

/-- The timeline has the calls of the search. -/
theorem timeline_snd (start finish : Epoch) (m : Memory τ) :
    (d.timeline trajectory start finish m).map Prod.snd = d.calls trajectory start finish m := by
  have hprepare (s : S) :
      InStep (fun (m : DatedMemory ι κ S τ) (m' : Memory τ × List (Call S)) =>
          m.1.custom.1 = m'.1 ∧ m.2.map Prod.snd = m'.2)
        (unnoted (d.watched.init s finish)) (watched <$> unnoted (d.init s finish)) := by
    rintro ⟨⟨r, n, notices⟩, calls⟩ ⟨_, _⟩ ⟨rfl, rfl⟩
    have hinit := d.run_init_watched s finish r n notices
    exact ⟨congrArg Prod.fst hinit, congrArg (fun m => m.2.custom.1) hinit, rfl⟩
  exact (inStep_locateBy _ _ (fun w s target => unnoted (w.init s target))
    (fun d s target => unnoted (d.init s target)) watched (alike_datedProbe trajectory)
    (settings_map _ _) d hprepare ⟨rfl, rfl⟩).2.2

/-- A search prepares its detector, and then asks the handler of the detector only.

* Preparing a detector asks its nodes in preorder, the handler of each node and right after it the
  indicator of an atomic one, with the same state and the same epoch, and nothing else.
* The timeline is that of the search itself: it has its calls, and the search that is dated has the
  answer of the search, the memory that this leaves, and its notices.
* A search of an interval prepares its detector once, with the state that it samples at the start
  and with the end, after this first sample and before any other call: in particular before any
  value. All that it asks of handlers and indicators afterwards are decisions of the handler of the
  detector itself. -/
theorem locate_prepares (h : start < finish) (m : Memory τ) :
    (∀ (s : S) (target : Epoch) (r : Recordings) (m : Memory τ) (notices : List (Notice ι κ S)),
      (d.watched.init s target).run ⟨r, (m, notices)⟩ =
        (((d.init s target).run m).1.watched,
          ⟨r, (((d.init s target).run m).2, notices ++ d.inits s target)⟩)) ∧
    ((d.timeline trajectory start finish m).map Prod.snd = d.calls trajectory start finish m ∧
      ((d.locateDated trajectory start finish).run (⟨.empty, (m, [])⟩, [])).1 =
        (((d.locate trajectory start finish).run m).1.1,
          ((d.locate trajectory start finish).run m).1.2.watched) ∧
      ((d.locateDated trajectory start finish).run (⟨.empty, (m, [])⟩, [])).2.1.custom =
        (((d.locate trajectory start finish).run m).2, d.notices trajectory start finish m)) ∧
    ∃ asked later,
      d.notices trajectory start finish m =
        d.inits (trajectory start m.custom).1 finish ++ asked ∧
      (∀ n ∈ asked, n.Decides d.handler) ∧
      d.timeline trajectory start finish m =
        ([], .sample start (trajectory start m.custom).1) :: later ∧
      ∀ x ∈ later, d.inits (trajectory start m.custom).1 finish <+: x.1 := by
  have hdated := d.run_locateDated trajectory start finish m
  refine ⟨fun s target r m notices => d.run_init_watched s target r m notices,
    ⟨d.timeline_snd trajectory start finish m, hdated⟩, ?_⟩
  have hle : ¬ finish ≤ start := by
    obtain ⟨hs, hf, hlt⟩ := Epoch.lt_iff.1 h
    rw [Epoch.le_iff_place hf hs]
    exact hlt.not_ge
  let s := (trajectory start m.custom).1
  let r := (d.init s finish).run (Memory.withCustom (trajectory start) m).2
  -- the search is under way as soon as the detector is prepared, with no decision asked yet
  have hunderway : Underway (d.inits s finish) d.handler ([], .sample start s)
      ((d.locateDated trajectory start finish).run (⟨.empty, (m, [])⟩, [])).2 := by
    rw [d.run_locateDated_eq trajectory hle]
    have hhandler : r.1.handler = d.handler := d.handler_init s finish _
    rw [← hhandler]
    refine r.1.underway_search trajectory _ start finish s ⟨⟨[], ?_, nofun⟩, [], rfl, nofun⟩
    exact (List.append_nil _).symm
  obtain ⟨⟨asked, hnotices, hasked⟩, later, hcalls, hlater⟩ := hunderway
  refine ⟨asked, later, ?_, hasked, hcalls, hlater⟩
  rw [hdated.2] at hnotices
  exact hnotices

/-- A detector that is positive while the component lies in a band, with operands that would stop
the search. -/
def overruled : Detector ComponentThreshold Empty :=
  .boolean .min
    [.atomic ⟨0, 0.5⟩ ⟨1.0, 0.5, 100⟩ .stopOnEvent,
      .negate (.atomic ⟨0, 1.5⟩ ⟨1.0, 0.5, 100⟩ .stopOnDecreasing) ⟨1.0, 0.5, 100⟩
        .stopOnIncreasing]
    ⟨1.0, 0.5, 100⟩ .continueOnEvent

/-- The operands are prepared, with the state that is sampled first, and do not stop the search at
either edge of the pulse. -/
theorem locate_prepares_overruled :
    ((overruled.locate (fun t => (pure (pulse t) : StateM Unit _)) ⟨0.0⟩ ⟨2.0⟩).run
        ⟨.empty, ()⟩).1.1 =
      .ok [⟨⟨0.5⟩, pulse ⟨0.5⟩, true, .proceed, none⟩,
        ⟨⟨2.0⟩, pulse ⟨2.0⟩, false, .proceed, none⟩] ∧
    (overruled.inits (pulse ⟨0.0⟩) ⟨2.0⟩ : List (Notice _ Empty _)) =
      [.handlerInit .continueOnEvent (pulse ⟨0.0⟩) ⟨2.0⟩,
        .handlerInit .stopOnEvent (pulse ⟨0.0⟩) ⟨2.0⟩,
        .indicatorInit ⟨0, 0.5⟩ (pulse ⟨0.0⟩) ⟨2.0⟩,
        .handlerInit .stopOnIncreasing (pulse ⟨0.0⟩) ⟨2.0⟩,
        .handlerInit .stopOnDecreasing (pulse ⟨0.0⟩) ⟨2.0⟩,
        .indicatorInit ⟨0, 1.5⟩ (pulse ⟨0.0⟩) ⟨2.0⟩] ∧
    ∃ asked later,
      overruled.notices (fun t => (pure (pulse t) : StateM Unit _)) ⟨0.0⟩ ⟨2.0⟩ ⟨.empty, ()⟩ =
        overruled.inits (pulse ⟨0.0⟩) ⟨2.0⟩ ++ asked ∧
      (∀ n ∈ asked, n.Decides .continueOnEvent) ∧
      overruled.timeline (fun t => (pure (pulse t) : StateM Unit _)) ⟨0.0⟩ ⟨2.0⟩ ⟨.empty, ()⟩ =
        ([], .sample ⟨0.0⟩ (pulse ⟨0.0⟩)) :: later ∧
      ∀ x ∈ later, overruled.inits (pulse ⟨0.0⟩) ⟨2.0⟩ <+: x.1 := by
  have hrun := run_locate_eq overruled pulse (m := (⟨.empty, ()⟩ : Memory Unit)) (by decide) rfl
    samplesAfter_pulse
  have h : (⟨0.0⟩ : Epoch) < ⟨2.0⟩ := by decide
  refine ⟨congrArg (fun r => r.1.1) hrun, rfl, ?_⟩
  obtain ⟨-, -, asked, later, hnotices, hasked, htimeline, hlater⟩ :=
    locate_prepares overruled (fun t => (pure (pulse t) : StateM Unit _)) h ⟨.empty, ()⟩
  exact ⟨asked, later, hnotices, hasked, htimeline, hlater⟩

end Detector

end TrajectoryEvents
