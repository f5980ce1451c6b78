import TrajectoryEvents.Proofs.Detector.Lockstep
import TrajectoryEvents.Proofs.Detector.Watching
import TrajectoryEvents.Proofs.Search.Run
import TrajectoryEvents.Scenario.Instrument

/-!
# Searches do not depend on history

Indicators and handlers may remember something from one use of a detector to the next. A search
prepares all of them before it asks for the first value. If this overwrites what the indicators and
the handler of the detector remember, then it does not matter what the detector was used for before:
the search answers the same and asks the handlers the same as if the detector were new.

What a handler remembers is a part of the common memory, its cache. It is its own: what the
trajectory, the indicators and the other handlers do depends on the cache of the handler in nothing
that finds its way back into it.

## Main definitions

* `Use`: a use of a detector.
* `Detector.useAll`: what several uses make of a detector and of the memory.
* `Becomes`: an indicator that comes of another one by being prepared.
* `CustomHandler.Overwrites`, `Detector.Overwrites`: handlers and detectors that are prepared anew.

## Main results

* `Detector.upTo_useAll`: a detector that is used changes in its indicators only.
* `Detector.Overwrites.run_init`: preparing a detector gives the same, whatever it was used for.
* `Detector.locate_useAll`: a search does not depend on the uses before.
-/

namespace TrajectoryEvents

variable {ι κ S τ γ : Type}

/-! ### Uses -/

/-- A use of a detector. -/
inductive Use (S τ : Type)
  | init (s : S) (target : Epoch)
  | evaluate (s : S)
  | locate (trajectory : Epoch → StateM τ S) (start finish : Epoch)

/-- An indicator that comes of `i` by being prepared any number of times. -/
inductive Becomes (S τ : Type) [Initializable ι S τ] (i : ι) : ι → Prop
  | refl : Becomes S τ i i
  | init {j : ι} (h : Becomes S τ i j) (s : S) (target : Epoch) (m : τ) :
    Becomes S τ i (Initializable.init j s target m).1

namespace Detector

variable [Indicator ι S] [Snapshot S] [Initializable ι S τ] [CustomHandler κ S τ]

/-- What a use makes of a detector, whether it succeeds or fails. Evaluating a detector changes
nothing. -/
def use (d : Detector ι κ) : Use S τ → StateM (Memory τ) (Detector ι κ)
  | .init s target => d.init s target
  | .evaluate s => do
    let _ := d.g s
    return d
  | .locate trajectory start finish => do
    let (_, d) ← d.locate trajectory start finish
    return d

/-- What several uses make of a detector, one after the other. -/
def useAll (d : Detector ι κ) (uses : List (Use S τ)) : StateM (Memory τ) (Detector ι κ) :=
  uses.foldlM use d

/-- A detector that is used changes in its indicators only, by preparing them. -/
theorem upTo_use {d e : Detector ι κ} (h : d.UpTo (Becomes S τ) e) (u : Use S τ) (m : Memory τ) :
    d.UpTo (Becomes S τ) ((e.use u).run m).1 := by
  have hinit (s : S) (target : Epoch) (m : Memory τ) :
      d.UpTo (Becomes S τ) ((e.init s target).run m).1 :=
    h.init (fun _ _ hij s target m => hij.init s target m) s target m
  cases u with
  | init s target => exact hinit s target m
  | evaluate s => exact h
  | locate trajectory start finish =>
    change d.UpTo (Becomes S τ) ((e.locate trajectory start finish).run m).1.2
    by_cases hle : finish ≤ start
    · rw [e.run_locate_of_le trajectory hle]
      exact h
    · rw [e.run_locate trajectory hle]
      exact hinit _ finish _

/-- The same holds of several uses. -/
theorem upTo_useAll (d : Detector ι κ) (uses : List (Use S τ)) (m : Memory τ) :
    d.UpTo (Becomes S τ) ((d.useAll uses).run m).1 := by
  have hrun (uses : List (Use S τ)) {e : Detector ι κ} (h : d.UpTo (Becomes S τ) e)
      (m : Memory τ) : d.UpTo (Becomes S τ) ((uses.foldlM use e).run m).1 := by
    induction uses generalizing e m with
    | nil => exact h
    | cons u uses ih => exact ih (upTo_use h u m) _
  exact hrun uses (.refl (fun i => .refl) d) m

end Detector

/-! ### Caches -/

/-- Two memories in which a cache is the same. -/
def SameCache (cache : τ → γ) (m m' : τ) : Prop := cache m = cache m'

/-- A handler with a cache that is overwritten when the handler is prepared, and that is all that
its answers depend on. -/
structure CustomHandler.Overwrites (S : Type) [CustomHandler κ S τ] (handler : κ)
    (cache : τ → γ) : Prop where
  init : ∀ (s : S) (target : Epoch) (m m' : τ),
    SameCache cache (CustomHandler.init handler s target m).2
      (CustomHandler.init handler s target m').2
  eventOccurred : ∀ (s : S) (detector : DetectorView S) (increasing : Bool),
    InStep (SameCache cache) (CustomHandler.eventOccurred handler s detector increasing)
      (CustomHandler.eventOccurred handler s detector increasing)
  resetState : ∀ (detector : DetectorView S) (s : S),
    InStep (SameCache cache) (CustomHandler.resetState handler detector s)
      (CustomHandler.resetState handler detector s)

/-- A detector whose indicators and whose handler are prepared anew. The cache is that of the
handler; only a handler of one's own has one. -/
structure Detector.Overwrites (S : Type) [Initializable ι S τ] [CustomHandler κ S τ]
    (d : Detector ι κ) (cache : τ → γ) : Prop where
  handler : ∀ k, d.handler = .custom k → CustomHandler.Overwrites S k cache
  /-- An indicator that has been in use is prepared as it was at first. -/
  indicators : ∀ i ∈ d.leaves, ∀ j, Becomes S τ i j → ∀ (s : S) (target : Epoch) (m m' : τ),
    (Initializable.init i s target m).1 = (Initializable.init j s target m').1
  /-- Indicators leave the cache alone. -/
  indicatorsApart : ∀ i ∈ d.leaves, ∀ j, Becomes S τ i j → ∀ (s : S) (target : Epoch) (m m' : τ),
    SameCache cache m m' →
      SameCache cache (Initializable.init i s target m).2 (Initializable.init j s target m').2
  /-- So do other handlers. -/
  handlersApart : ∀ x ∈ d.nodes, ∀ k, x.handler = .custom k → ∀ (s : S) (target : Epoch) (m m' : τ),
    SameCache cache m m' →
      SameCache cache (CustomHandler.init k s target m).2 (CustomHandler.init k s target m').2

namespace Detector

variable {d e : Detector ι κ} {cache : τ → γ}

/-- Two memories in which the handler of a detector finds the same cache. -/
def SameMemory (d : Detector ι κ) (cache : τ → γ) (m m' : Memory τ) : Prop :=
  ∀ k, d.handler = .custom k → SameCache cache m.custom m'.custom

namespace Overwrites

section Init

variable [Initializable ι S τ] [CustomHandler κ S τ] (hd : d.Overwrites S cache)
include hd

/-- Preparing a detector gives the same, whatever it was used for. -/
theorem run_init (he : d.UpTo (Becomes S τ) e) (s : S) (target : Epoch) (m m' : Memory τ) :
    ((d.init s target).run m).1 = ((e.init s target).run m').1 ∧
      d.SameMemory cache ((d.init s target).run m).2 ((e.init s target).run m').2 := by
  have hbelow : InStep (d.SameMemory cache) (d.initBelow s target) (e.initBelow s target) := by
    refine he.inStep_initBelow (fun i hi j hij m m' h => ?_) fun x hx m m' h =>
      ⟨rfl, fun k hk => ?_⟩
    · exact ⟨hd.indicators i hi j hij s target _ _,
        fun k hk => hd.indicatorsApart i hi j hij s target _ _ (h k hk)⟩
    · cases hhandler : x.handler with
      | custom k' => exact hd.handlersApart x hx k' hhandler s target _ _ (h k hk)
      -- the other handlers have nothing to do with the caches
      | continueOnEvent | stopOnEvent | stopOnIncreasing | stopOnDecreasing | recordAndContinue =>
        exact h k hk
  -- the handler overwrites its cache before anything else is prepared
  have hhandler : d.SameMemory cache ((d.handler.init s target).run m).2
      ((d.handler.init s target).run m').2 := by
    intro k hk
    rw [hk]
    exact (hd.handler k hk).init s target m.custom m'.custom
  rw [init_eq, init_eq, he.handler_eq]
  exact hbelow _ _ hhandler

end Init

section Handler

variable [Snapshot S] [Initializable ι S τ] [CustomHandler κ S τ] (hd : d.Overwrites S cache)
include hd

/-- The decisions of the handler depend on its cache only. -/
theorem inStep_eventOccurred (s : S) (detector : DetectorView S) (increasing : Bool) :
    InStep (d.SameMemory cache) (d.handler.eventOccurred s detector increasing)
      (d.handler.eventOccurred s detector increasing) := by
  intro m m' h
  cases hk : d.handler with
  | custom k =>
    obtain ⟨hanswer, hleft⟩ := (hd.handler k hk).eventOccurred s detector increasing _ _ (h k hk)
    exact ⟨hanswer, fun _ _ => hleft⟩
  | continueOnEvent | stopOnEvent | stopOnIncreasing | stopOnDecreasing | recordAndContinue =>
    exact ⟨rfl, fun k' hk' => nomatch hk.symm.trans hk'⟩

omit [Snapshot S] in
/-- So do the states that it puts in. -/
theorem inStep_resetState (detector : DetectorView S) (s : S) :
    InStep (d.SameMemory cache) (d.handler.resetState detector s)
      (d.handler.resetState detector s) := by
  intro m m' h
  cases hk : d.handler with
  | custom k =>
    obtain ⟨hanswer, hleft⟩ := (hd.handler k hk).resetState detector s _ _ (h k hk)
    exact ⟨hanswer, fun _ _ => hleft⟩
  | continueOnEvent | stopOnEvent | stopOnIncreasing | stopOnDecreasing | recordAndContinue =>
    exact ⟨rfl, fun k' hk' => nomatch hk.symm.trans hk'⟩

end Handler

end Overwrites

/-! ### Searches -/

/-- Memories of searches that are watched: the handler of the detector finds the same cache, and the
same has been asked of handlers. -/
structure SameNotices (d : Detector ι κ) (cache : τ → γ)
    (m m' : Memory (Memory τ × List (Notice ι κ S))) : Prop where
  memory : d.SameMemory cache m.custom.1 m'.custom.1
  notices : m.custom.2.filter Notice.isOfHandler = m'.custom.2.filter Notice.isOfHandler

/-- Computations in step are in step when they are noted. -/
private theorem SameNotices.noted {x x' : StateM (Memory τ) γ} {call : γ → Notice ι κ S}
    {δ : Type} {cache : τ → δ} (h : InStep (d.SameMemory cache) x x') :
    InStep (d.SameNotices cache) (Memory.withCustom (noted x call))
      (Memory.withCustom (noted x' call)) := by
  intro m m' hm
  obtain ⟨hanswer, hleft⟩ := h _ _ hm.memory
  refine ⟨hanswer, hleft, ?_⟩
  change (m.custom.2 ++ [call (x m.custom.1).1]).filter _ =
    (m'.custom.2 ++ [call (x' m'.custom.1).1]).filter _
  rw [List.filter_append, List.filter_append, hm.notices, hanswer]

/-- So they are when they are not noted. -/
private theorem SameNotices.unnoted {x x' : StateM (Memory τ) γ} {δ : Type} {cache : τ → δ}
    (h : InStep (d.SameMemory cache) x x') :
    InStep (d.SameNotices (ι := ι) (S := S) cache) (Memory.withCustom (unnoted x))
      (Memory.withCustom (unnoted x')) := by
  intro m m' hm
  obtain ⟨hanswer, hleft⟩ := h _ _ hm.memory
  exact ⟨hanswer, hleft, hm.notices⟩

section Locate

variable [Indicator ι S] [Snapshot S] [Initializable ι S τ] [CustomHandler κ S τ]
  (hd : d.Overwrites S cache) {trajectory : Epoch → StateM τ S} {f : Epoch → S}
  (hf : ∀ t m, (trajectory t m).1 = f t)
  (hcache : ∀ t m m', SameCache cache m m' → SameCache cache (trajectory t m).2 (trajectory t m').2)
include hd hf hcache

/-- A search of a prepared detector asks the same of its handler, if the handler finds the same
cache. -/
theorem Overwrites.inStep_search {d' : Detector ι κ} (hhandler : d'.handler = d.handler)
    (start finish : Epoch) (s : S) :
    InStep (d.SameNotices cache) (d'.watched.search (unwatched trajectory) start finish s).run
      (d'.watched.search (unwatched trajectory) start finish s).run := by
  have halike : Probe.Alike (d.SameNotices cache) (d'.watched.probe (unwatched trajectory))
      (d'.watched.probe (unwatched trajectory)) := by
    rw [probe_watched]
    refine ⟨fun t => ?_, fun s => ?_, fun s increasing => ?_, fun s => ?_⟩
    · refine SameNotices.unnoted fun m m' h => ⟨?_, fun k hk => hcache t _ _ (h k hk)⟩
      exact (hf t m.custom).trans (hf t m'.custom).symm
    · exact SameNotices.unnoted fun m m' h => ⟨rfl, h⟩
    · refine SameNotices.noted ?_
      simp only [probe, hhandler]
      exact hd.inStep_eventOccurred s d'.view increasing
    · refine SameNotices.noted ?_
      simp only [probe, hhandler]
      exact hd.inStep_resetState d'.view s
  exact halike.search _ start finish s

/-- A search of a detector that has been in use answers the same, with the same detector left, and
asks the same of handlers. -/
theorem Overwrites.locate_eq (he : d.UpTo (Becomes S τ) e) {start finish : Epoch}
    (h : ¬ finish ≤ start) (m m' : Memory τ) :
    ((d.locate trajectory start finish).run m).1 =
        ((e.locate trajectory start finish).run m').1 ∧
      (d.notices trajectory start finish m).filter Notice.isOfHandler =
        (e.notices trajectory start finish m').filter Notice.isOfHandler := by
  have hrun := d.run_locate_watched_eq trajectory h m
  have hrun' := e.run_locate_watched_eq trajectory h m'
  have hinit := hd.run_init he (f start) finish (Memory.withCustom (trajectory start) m).2
    (Memory.withCustom (trajectory start) m').2
  have hhandler := d.handler_init (f start) finish (Memory.withCustom (trajectory start) m).2
  have hprepared := d.prepared_eq hf h m
  have hprepared' := e.prepared_eq hf h m'
  rw [hf] at hrun hrun'
  -- the prepared detectors are the same, and the handler finds the same cache
  generalize (d.init (f start) finish).run (Memory.withCustom (trajectory start) m).2 = r at *
  generalize (e.init (f start) finish).run (Memory.withCustom (trajectory start) m').2 = r' at *
  obtain ⟨d', n⟩ := r
  obtain ⟨e', n'⟩ := r'
  obtain ⟨rfl, hmemory⟩ : d' = e' ∧ d.SameMemory cache n n' := hinit
  have hnotices : d.SameNotices cache
      (⟨.empty, (n, d.inits (f start) finish)⟩ : Memory (Memory τ × List (Notice ι κ S)))
      ⟨.empty, (n', e.inits (f start) finish)⟩ := by
    refine ⟨hmemory, ?_⟩
    change List.filter _ (d.inits (f start) finish) = List.filter _ (e.inits (f start) finish)
    rw [filter_inits, filter_inits, he.skeleton_eq]
  obtain ⟨hanswer, hasked⟩ :=
    hd.inStep_search hf hcache hhandler start finish (f start) _ _ hnotices
  -- what is watched is the search itself
  have hd' := (d.run_locate_watched trajectory start finish m).1
  have he' := (e.run_locate_watched trajectory start finish m').1
  rw [hrun] at hd'
  rw [hrun'] at he'
  refine ⟨?_, ?_⟩
  · have hanswers : ((d.locate trajectory start finish).run m).1.1 =
        ((e.locate trajectory start finish).run m').1.1 := by
      rw [← (Prod.mk.inj hd').1, ← (Prod.mk.inj he').1, hanswer]
    exact Prod.ext hanswers (hprepared.trans hprepared'.symm)
  · rw [notices, notices, hrun, hrun']
    exact hasked.notices

/-- Searches do not depend on history. Let a detector be one whose indicators and whose handler are
prepared anew, and let it have been used any number of times: prepared, evaluated, or searched along
any trajectories in any intervals. Then a search along a trajectory that is a function of the epoch
has the same answer as if the detector were new, and leaves the same detector; it asks the same of
handlers, with the same answers; and the reducers, settings and handlers of the detector are those
that it was built with. -/
theorem locate_useAll (uses : List (Use S τ)) {start finish : Epoch} (h : ¬ finish ≤ start)
    {m m' : Memory τ} (huse : (d.useAll uses).run m = (e, m')) :
    ((e.locate trajectory start finish).run m').1 = ((d.locate trajectory start finish).run m).1 ∧
      (e.notices trajectory start finish m').filter Notice.isOfHandler =
        (d.notices trajectory start finish m).filter Notice.isOfHandler ∧
      ((e.locate trajectory start finish).run m').1.2.skeleton = d.skeleton := by
  have he : d.UpTo (Becomes S τ) e := by
    have hused := d.upTo_useAll uses m
    rwa [huse] at hused
  obtain ⟨hanswer, hnotices⟩ := hd.locate_eq hf hcache he h m m'
  refine ⟨hanswer.symm, hnotices.symm, ?_⟩
  have hprepared := e.prepared_eq hf h m'
  rw [prepared] at hprepared
  rw [hprepared, skeleton_init, he.skeleton_eq]

end Locate

end Detector

/-! ### A clock with a script -/

namespace Script

variable (script : Script) (s : TrajectoryState) (detector detector' : DetectorView TrajectoryState)

/-- The decisions of a scripted handler depend on how far it has come, and not on the detector. -/
theorem inStep_eventOccurred (increasing : Bool) :
    InStep (SameCache (Journal.used · script.number))
      (CustomHandler.eventOccurred script s detector increasing)
      (CustomHandler.eventOccurred script s detector' increasing) := by
  -- the handler makes a note first, which is not about its progress
  refine .bind (fun _ _ h => ⟨rfl, h⟩) fun _ m m' h => ?_
  have hused : m.used script.number = m'.used script.number := h
  simp only [get, getThe, MonadStateOf.get, bind, StateT.bind, StateT.get, pure, hused]
  cases script.actions[m'.used script.number]? with
  | none => exact ⟨rfl, h⟩
  | some action => exact ⟨rfl, (m.used_setUsed _ _).trans (m'.used_setUsed _ _).symm⟩

/-- The states that it puts in depend on neither. -/
theorem inStep_resetState :
    InStep (SameCache (Journal.used · script.number))
      (CustomHandler.resetState script detector s : StateM Journal TrajectoryState)
      (CustomHandler.resetState script detector' s) := by
  simp only [CustomHandler.resetState]
  split
  · exact .pure _
  · exact .pure _

/-- What a scripted handler remembers is how far it has come. It starts over when it is prepared. -/
theorem overwrites :
    CustomHandler.Overwrites TrajectoryState script (Journal.used · script.number) where
  init _ _ m m' := (m.used_setUsed _ 0).trans (m'.used_setUsed _ 0).symm
  eventOccurred s detector := script.inStep_eventOccurred s detector detector
  resetState detector s := script.inStep_resetState s detector detector

end Script

/-- A clock that has been in use differs from what it was in the point from which it counts. -/
theorem SinceInit.eq_of_becomes {i j : SinceInit} (h : Becomes TrajectoryState Journal i j) :
    j.name = i.name ∧ j.fraction = i.fraction := by
  induction h with
  | refl => exact ⟨rfl, rfl⟩
  | init _ _ _ _ ih => exact ih

namespace Detector

/-- A clock that counts from the middle of the interval, with a script and an operand of its own. -/
def timed : Detector SinceInit Script :=
  .boolean .min [.atomic ⟨"midway", 0.5, none⟩ .standard (.recordAndContinue "log")]
    ⟨1.0, 0.5, 100⟩ (.custom ⟨0, "script", [.resetState, .stop], some 2.0⟩)

theorem overwrites_timed : timed.Overwrites TrajectoryState (Journal.used · 0) where
  handler := by
    rintro _ ⟨⟩
    exact Script.overwrites ⟨0, "script", [.resetState, .stop], some 2.0⟩
  indicators := by
    intro i _ j hij s target m m'
    obtain ⟨hname, hfraction⟩ := SinceInit.eq_of_becomes hij
    change (⟨i.name, i.fraction, some _⟩ : SinceInit) = ⟨j.name, j.fraction, some _⟩
    rw [hname, hfraction]
  indicatorsApart _ _ _ _ _ _ _ _ h := h
  handlersApart := by
    rintro x hx k hk s target m m' -
    simp only [timed, nodes, nodesAll, List.append_nil, List.mem_cons, List.not_mem_nil,
      or_false] at hx
    rcases hx with rfl | rfl
    · obtain rfl := Handler.custom.inj hk
      exact (Script.overwrites _).init s target m m'
    -- the operand has a recorder
    · cases hk

/-- Times without anything that happens. -/
def idle (t : Epoch) : StateM Journal TrajectoryState := pure ⟨t, []⟩

/-- The clock counts from the middle of the interval that is searched, not from that of an earlier
search. -/
theorem locate_useAll_timed :
    ∃ e m, (timed.useAll [.locate idle ⟨0.0⟩ ⟨4.0⟩, .evaluate ⟨⟨3.0⟩, []⟩,
        .init ⟨⟨7.0⟩, []⟩ ⟨9.0⟩]).run ⟨.empty, .empty⟩ = (e, m) ∧
      ((e.locate idle ⟨1.0⟩ ⟨2.0⟩).run m).1 =
        ((timed.locate idle ⟨1.0⟩ ⟨2.0⟩).run ⟨.empty, .empty⟩).1 := by
  have hf : ∀ t m, (idle t m).1 = ⟨t, []⟩ := fun _ _ => rfl
  have hcache : ∀ t m m', SameCache (Journal.used · 0) m m' →
      SameCache (Journal.used · 0) (idle t m).2 (idle t m').2 := fun _ _ _ h => h
  have h : ¬ (⟨2.0⟩ : Epoch) ≤ ⟨1.0⟩ := by decide
  have hsearch := locate_useAll overwrites_timed hf hcache [.locate idle ⟨0.0⟩ ⟨4.0⟩,
    .evaluate ⟨⟨3.0⟩, []⟩, .init ⟨⟨7.0⟩, []⟩ ⟨9.0⟩] h (m := ⟨.empty, .empty⟩) (Prod.eta _).symm
  exact ⟨_, _, (Prod.eta _).symm, hsearch.1⟩

end Detector

end TrajectoryEvents
