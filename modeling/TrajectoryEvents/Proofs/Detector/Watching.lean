import TrajectoryEvents.Detector.Locate
import TrajectoryEvents.Proofs.Detector.Preparation
import TrajectoryEvents.Proofs.Search.Lockstep

/-!
# Watching a detector at work

To see what a search asks of the handlers and indicators of a detector, each of them is replaced by
one that does the same and notes what it is asked. Indicators and handlers plug into a detector by
their instances, so that it is the detector itself that is watched, and the search itself.

## Main definitions

* `Notice`: what a handler or an indicator is asked to do, with the answer.
* `Watched`: a handler or an indicator that notes what it is asked.
* `Detector.watched`: a detector whose handlers and indicators are watched.
* `Detector.inits`: the preparations of all nodes of a detector.
* `Detector.notices`: what a search asks of the handlers and indicators of a detector.

## Main results

* `Detector.run_init_watched`: preparing a detector prepares every node once.
* `Detector.run_locate_watched`: a search does the same when it is watched.
-/

namespace TrajectoryEvents

variable {ι κ S τ : Type}

/-! ### Notices -/

/-- What a handler or an indicator is asked to do, with the answer. -/
inductive Notice (ι κ S : Type)
  | handlerInit (handler : Handler κ) (s : S) (target : Epoch)
  | indicatorInit (indicator : ι) (s : S) (target : Epoch)
  | eventOccurred (handler : Handler κ) (s : S) (detector : DetectorView S) (increasing : Bool)
      (action : Action)
  | resetState (handler : Handler κ) (detector : DetectorView S) (s replacement : S)

/-- Whether a handler is asked. -/
def Notice.isOfHandler : Notice ι κ S → Bool
  | .indicatorInit _ _ _ => false
  | .handlerInit _ _ _ | .eventOccurred _ _ _ _ _ | .resetState _ _ _ _ => true

/-- A handler or an indicator that notes what it is asked. -/
structure Watched (α : Type) where
  inner : α

instance [Indicator ι S] : Indicator (Watched ι) S where
  name i := Indicator.name i.inner
  g i s := Indicator.g i.inner s

instance [Initializable ι S τ] :
    Initializable (Watched ι) S (Memory τ × List (Notice ι κ S)) where
  init i s target :=
    Watched.mk <$> noted (Memory.withCustom (Initializable.init i.inner s target)) fun _ =>
      .indicatorInit i.inner s target

instance [Snapshot S] [CustomHandler κ S τ] :
    CustomHandler (Watched (Handler κ)) S (Memory τ × List (Notice ι κ S)) where
  init h s target := noted (h.inner.init s target) fun _ => .handlerInit h.inner s target
  eventOccurred h s detector increasing :=
    noted (h.inner.eventOccurred s detector increasing)
      (.eventOccurred h.inner s detector increasing)
  resetState h detector s := noted (h.inner.resetState detector s) (.resetState h.inner detector s)

namespace Detector

/-- The detector with all its handlers and indicators watched. -/
def watched (d : Detector ι κ) : Detector (Watched ι) (Watched (Handler κ)) :=
  d.map Watched.mk fun h => .custom ⟨h⟩

/-- A trajectory that leaves the notices alone. -/
def unwatched (trajectory : Epoch → StateM τ S) (t : Epoch) :
    StateM (Memory τ × List (Notice ι κ S)) S :=
  unnoted (Memory.withCustom (trajectory t))

theorem watched_boolean (r : Reducer) (ds : List (Detector ι κ)) (st : Settings) (h : Handler κ) :
    (Detector.boolean r ds st h).watched = .boolean r (ds.map watched) st (.custom ⟨h⟩) := by
  rw [watched, map, mapAll_eq]
  rfl

/-- A detector has the same values when it is watched. -/
@[simp]
theorem g_watched [Indicator ι S] (d : Detector ι κ) (s : S) : d.watched.g s = d.g s := by
  induction d with
  | atomic i st h => rfl
  | boolean r ds st h ih =>
    have hall : values (ds.map watched) s = values ds s := by
      induction ds with
      | nil => rfl
      | cons d ds ihds =>
        rw [List.map_cons, values, values, ih d List.mem_cons_self,
          ihds fun d hd => ih d (List.mem_cons_of_mem _ hd)]
    rw [watched_boolean, g, g, hall]
  | negate d st h ih => rw [watched, map, ← watched, g, g, ih]

/-! ### Preparing -/

/-- The preparations of a node: its handler, and the indicator of an atomic one. -/
def nodeInits (s : S) (target : Epoch) : Detector ι κ → List (Notice ι κ S)
  | .atomic i _ h => [.handlerInit h s target, .indicatorInit i s target]
  | .boolean _ _ _ h => [.handlerInit h s target]
  | .negate _ _ h => [.handlerInit h s target]

/-- The preparations of all nodes of a detector, in order. -/
def inits (d : Detector ι κ) (s : S) (target : Epoch) : List (Notice ι κ S) :=
  d.nodes.flatMap (nodeInits s target)

theorem inits_boolean (r : Reducer) (ds : List (Detector ι κ)) (st : Settings) (h : Handler κ)
    (s : S) (target : Epoch) :
    (Detector.boolean r ds st h).inits s target =
      .handlerInit h s target :: ds.flatMap (inits · s target) := by
  rw [inits, nodes, nodesAll_eq, List.flatMap_cons, List.flatMap_assoc]
  rfl

/-- The preparations of handlers do not depend on the indicators. -/
theorem filter_inits (d : Detector ι κ) (s : S) (target : Epoch) :
    (d.inits s target).filter Notice.isOfHandler =
      d.skeleton.nodes.map fun x => .handlerInit x.handler s target := by
  have hnode (x : Detector ι κ) : (nodeInits s target x).filter Notice.isOfHandler =
      [.handlerInit x.handler s target] := by
    cases x <;> rfl
  rw [inits, List.filter_flatMap, skeleton, nodes_map, List.map_map]
  simp only [hnode, Function.comp_def, handler_map, id]
  exact List.flatMap_pure_eq_map _ _

section Init

variable [Snapshot S] [Initializable ι S τ] [CustomHandler κ S τ]

omit [Initializable ι S τ] in
/-- What is left by preparing a handler that is watched. -/
private theorem run_init_custom (h : Handler κ) (s : S) (target : Epoch) (r : Recordings)
    (m : Memory τ) (notices : List (Notice ι κ S)) :
    (((Handler.custom ⟨h⟩ : Handler (Watched (Handler κ))).init s target).run
        ⟨r, (m, notices)⟩).2 =
      ⟨r, (((h.init s target).run m).2, notices ++ [.handlerInit h s target])⟩ :=
  rfl

/-- Preparing a detector prepares every node once, in order. -/
theorem run_init_watched (d : Detector ι κ) (s : S) (target : Epoch) (r : Recordings)
    (m : Memory τ) (notices : List (Notice ι κ S)) :
    (d.watched.init s target).run ⟨r, (m, notices)⟩ =
      (((d.init s target).run m).1.watched,
        ⟨r, (((d.init s target).run m).2, notices ++ d.inits s target)⟩) := by
  induction d generalizing m notices with
  | atomic i st h =>
    have hnotices : (notices ++ [.handlerInit h s target]) ++ [.indicatorInit i s target] =
      notices ++ (Detector.atomic i st h).inits s target := List.append_assoc _ _ _
    rw [← hnotices]
    rfl
  | boolean reducer ds st h ih =>
    have hall (m : Memory τ) (notices : List (Notice ι κ S)) :
        (initAll (ds.map watched) s target).run ⟨r, (m, notices)⟩ =
          (((initAll ds s target).run m).1.map watched,
            ⟨r, (((initAll ds s target).run m).2,
              notices ++ ds.flatMap (inits · s target))⟩) := by
      induction ds generalizing m notices with
      | nil =>
        rw [List.flatMap_nil, List.append_nil]
        rfl
      | cons d ds ihds =>
        rw [List.map_cons, run_initAll_cons, ih d List.mem_cons_self,
          ihds fun d hd => ih d (List.mem_cons_of_mem _ hd), run_initAll_cons, List.map_cons,
          List.flatMap_cons, List.append_assoc]
    rw [watched_boolean, run_init_boolean, run_init_custom, hall, run_init_boolean, watched_boolean,
      inits_boolean, List.append_assoc, List.singleton_append]
  | negate d st h ih =>
    have hnotices : (notices ++ [.handlerInit h s target]) ++ d.inits s target =
        notices ++ (Detector.negate d st h).inits s target := List.append_assoc _ _ _
    have hd := ih ((h.init s target).run m).2 (notices ++ [.handlerInit h s target])
    rw [hnotices] at hd
    exact congrArg (fun x : _ × _ => (Detector.negate x.1 st (.custom ⟨h⟩), x.2)) hd

end Init

/-! ### Searching -/

section Locate

variable [Indicator ι S] [Snapshot S] [CustomHandler κ S τ] (d : Detector ι κ)
  (trajectory : Epoch → StateM τ S)

omit [Snapshot S] in
/-- A detector shows the same of itself when it is watched. -/
theorem view_watched : d.watched.view = (d.view : DetectorView S) :=
  congrArg₂ DetectorView.mk (settings_map _ _ d) (funext d.g_watched)

/-- A detector that is watched answers every question as before, and its handler notes what it is
asked. -/
theorem probe_watched :
    (d.watched.probe (unwatched trajectory) : Probe (Memory (Memory τ × List (Notice ι κ S))) S) =
      { sample := fun t => Memory.withCustom (unnoted ((d.probe trajectory).sample t))
        g := fun s => ExceptT.mk (Memory.withCustom (unnoted ((d.probe trajectory).g s).run))
        consult := fun s increasing =>
          Memory.withCustom (noted ((d.probe trajectory).consult s increasing)
            (.eventOccurred d.handler s d.view increasing))
        replace := fun s =>
          Memory.withCustom (noted ((d.probe trajectory).replace s)
            (.resetState d.handler d.view s)) } := by
  have hg : d.watched.g = (d.g : S → _) := funext d.g_watched
  have hhandler : d.watched.handler = .custom ⟨d.handler⟩ := handler_map _ _ d
  rw [probe, view_watched, hg, hhandler]
  rfl

/-- A detector that is watched answers alike, for a memory in which the notices are left out. -/
theorem alike_watched :
    Probe.Alike (fun (m : Memory (Memory τ × List (Notice ι κ S))) (m' : Memory τ) =>
      m.custom.1 = m') (d.watched.probe (unwatched trajectory)) (d.probe trajectory) := by
  rw [probe_watched]
  refine ⟨fun t => ?_, fun s => ?_, fun s increasing => ?_, fun s => ?_⟩ <;>
    · rintro m _ rfl
      exact ⟨rfl, rfl⟩

variable [Initializable ι S τ] {start finish : Epoch}

/-- What a search asks of the handlers and indicators of a detector, in order. -/
def notices (start finish : Epoch) (m : Memory τ) : List (Notice ι κ S) :=
  ((d.watched.locate (unwatched trajectory) start finish).run ⟨.empty, (m, [])⟩).2.custom.2

/-- A search that is watched samples the start of the interval and prepares every node once. Then it
is the search of the prepared detector. -/
theorem run_locate_watched_eq (h : ¬ finish ≤ start) (m : Memory τ) :
    (d.watched.locate (unwatched trajectory) start finish).run
        (⟨.empty, (m, [])⟩ : Memory (Memory τ × List (Notice ι κ S))) =
      let r := (d.init (trajectory start m.custom).1 finish).run
        (Memory.withCustom (trajectory start) m).2
      let w := (r.1.watched.search (unwatched trajectory) start finish
        (trajectory start m.custom).1).run
          ⟨.empty, (r.2, d.inits (trajectory start m.custom).1 finish)⟩
      ((w.1, r.1.watched), w.2) := by
  exact d.watched.run_locate_of_init h (d.run_init_watched _ finish _ _ [])

/-- A search does the same when it is watched. -/
theorem run_locate_watched (start finish : Epoch) (m : Memory τ) :
    ((d.watched.locate (unwatched trajectory) start finish).run
        (⟨.empty, (m, [])⟩ : Memory (Memory τ × List (Notice ι κ S)))).1 =
      (((d.locate trajectory start finish).run m).1.1,
        ((d.locate trajectory start finish).run m).1.2.watched) ∧
    ((d.watched.locate (unwatched trajectory) start finish).run
        (⟨.empty, (m, [])⟩ : Memory (Memory τ × List (Notice ι κ S)))).2.custom.1 =
      ((d.locate trajectory start finish).run m).2 := by
  have hprepare (s : S) :
      InStep (fun (m : Memory (Memory τ × List (Notice ι κ S))) m' => m.custom.1 = m')
        (d.watched.init s finish) (watched <$> d.init s finish) := by
    rintro ⟨r, n, notices⟩ _ rfl
    have hinit := d.run_init_watched s finish r n notices
    exact ⟨congrArg Prod.fst hinit, congrArg (fun m => m.2.custom.1) hinit⟩
  exact inStep_locateBy _ _ (fun w s target => w.init s target) (fun d s target => d.init s target)
    watched (fun d => d.alike_watched trajectory) (settings_map _ _) d hprepare rfl

end Locate

end Detector

end TrajectoryEvents
