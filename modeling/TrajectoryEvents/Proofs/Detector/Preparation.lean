import Mathlib.Data.List.Forall2
import TrajectoryEvents.Detector.Init

/-!
# What preparing a detector changes

Preparing a detector may change its indicators, and nothing else of it: the nodes with their
reducers, settings and handlers stay as they are.

## Main definitions

* `Detector.map`: a detector with other indicators and other handlers.
* `Detector.skeleton`: a detector without its indicators.
* `Detector.UpTo`: a detector that differs in its indicators only.
* `Detector.nodes`: the nodes of a detector, each of them a detector itself.

## Main results

* `Detector.UpTo.init`: preparing a detector changes its indicators only, by preparing them.
* `Detector.skeleton_init`: preparing a detector keeps its skeleton.
* `Detector.forall_nodes_init`: what depends on skeletons holds of all nodes before if it does
  afterwards, and the other way round.
-/

namespace TrajectoryEvents

namespace Detector

variable {ι ι' κ κ' : Type}

/-! ### Skeletons -/

mutual

/-- The detector with other indicators and other handlers. -/
def map (f : ι → ι') (handler : Handler κ → Handler κ') : Detector ι κ → Detector ι' κ'
  | .atomic i s h => .atomic (f i) s (handler h)
  | .boolean r ds s h => .boolean r (mapAll f handler ds) s (handler h)
  | .negate d s h => .negate (map f handler d) s (handler h)

/-- Several detectors with other indicators and other handlers. -/
def mapAll (f : ι → ι') (handler : Handler κ → Handler κ') :
    List (Detector ι κ) → List (Detector ι' κ')
  | [] => []
  | d :: ds => map f handler d :: mapAll f handler ds

end

section Map

variable (f : ι → ι') (handler : Handler κ → Handler κ')

theorem mapAll_eq (ds : List (Detector ι κ)) : mapAll f handler ds = ds.map (map f handler) := by
  induction ds with
  | nil => rfl
  | cons d ds ih => rw [mapAll, ih, List.map_cons]

@[simp]
theorem settings_map (d : Detector ι κ) : (d.map f handler).settings = d.settings := by
  cases d <;> rfl

@[simp]
theorem handler_map (d : Detector ι κ) : (d.map f handler).handler = handler d.handler := by
  cases d <;> rfl

end Map

/-- A detector without its indicators: its nodes with their reducers, settings and handlers. -/
def skeleton (d : Detector ι κ) : Detector Unit κ := d.map (fun _ => ()) id

/-- The same detector up to its indicators, which are related by `L`. -/
inductive UpTo (L : ι → ι → Prop) : Detector ι κ → Detector ι κ → Prop
  | atomic {i j : ι} {st : Settings} {h : Handler κ} (indicator : L i j) :
    UpTo L (.atomic i st h) (.atomic j st h)
  | boolean {r : Reducer} {ds es : List (Detector ι κ)} {st : Settings} {h : Handler κ}
    (operands : List.Forall₂ (UpTo L) ds es) : UpTo L (.boolean r ds st h) (.boolean r es st h)
  | negate {d e : Detector ι κ} {st : Settings} {h : Handler κ} (original : UpTo L d e) :
    UpTo L (.negate d st h) (.negate e st h)

namespace UpTo

variable {L : ι → ι → Prop} {d e : Detector ι κ}

theorem refl (hL : ∀ i, L i i) (d : Detector ι κ) : d.UpTo L d := by
  induction d with
  | atomic i => exact .atomic (hL i)
  | boolean r ds _ _ ih => exact .boolean (List.forall₂_same.2 ih)
  | negate d _ _ ih => exact .negate ih

/-- A detector that differs in its indicators only has the same handler. -/
theorem handler_eq (h : d.UpTo L e) : e.handler = d.handler := by
  cases h <;> rfl

/-- A detector that differs in its indicators only has the same skeleton. -/
theorem skeleton_eq (h : d.UpTo L e) : e.skeleton = d.skeleton := by
  induction d generalizing e with
  | atomic i =>
    cases h
    rfl
  | boolean r ds st hd ih =>
    cases h with
    | @boolean _ _ es _ _ operands =>
      have hall : mapAll (fun _ => ()) (id : Handler κ → Handler κ) es =
          mapAll (fun _ => ()) id ds := by
        rw [mapAll_eq, mapAll_eq]
        induction operands with
        | nil => rfl
        | cons hd _ ihds =>
          have hskeleton := ih _ List.mem_cons_self hd
          have hrest := ihds fun d hd => ih d (List.mem_cons_of_mem _ hd)
          rw [List.map_cons, List.map_cons, hrest, ← skeleton, ← skeleton, hskeleton]
      rw [skeleton, skeleton, map, map, hall]
  | negate d st hd ih =>
    cases h with
    | negate original => exact congrArg (fun d => Detector.negate d st (id hd)) (ih original)

end UpTo

/-! ### Nodes -/

mutual

/-- The nodes of a detector, a node before its operands and the operands from left to right. -/
def nodes : Detector ι κ → List (Detector ι κ)
  | .atomic i s h => [.atomic i s h]
  | .boolean r ds s h => .boolean r ds s h :: nodesAll ds
  | .negate d s h => .negate d s h :: nodes d

/-- The nodes of several detectors, in order. -/
def nodesAll : List (Detector ι κ) → List (Detector ι κ)
  | [] => []
  | d :: ds => nodes d ++ nodesAll ds

end

theorem nodesAll_eq (ds : List (Detector ι κ)) : nodesAll ds = ds.flatMap nodes := by
  induction ds with
  | nil => rfl
  | cons d ds ih => rw [nodesAll, ih, List.flatMap_cons]

theorem mem_nodesAll {e : Detector ι κ} {ds : List (Detector ι κ)} :
    e ∈ nodesAll ds ↔ ∃ d ∈ ds, e ∈ d.nodes := by
  rw [nodesAll_eq, List.mem_flatMap]

/-- A detector is the first of its nodes. -/
theorem mem_nodes_self (d : Detector ι κ) : d ∈ d.nodes := by
  cases d <;> exact List.mem_cons_self

/-- The nodes of a detector with other indicators and handlers are its nodes with those. -/
theorem nodes_map (f : ι → ι') (handler : Handler κ → Handler κ') (d : Detector ι κ) :
    (d.map f handler).nodes = d.nodes.map (map f handler) := by
  induction d with
  | atomic i s h => rfl
  | boolean r ds s h ih =>
    have hall : nodesAll (mapAll f handler ds) = (nodesAll ds).map (map f handler) := by
      rw [mapAll_eq, nodesAll_eq, nodesAll_eq, List.flatMap_map, List.map_flatMap]
      exact List.flatMap_congr ih
    rw [map, nodes, nodes, hall, List.map_cons, map]
  | negate d s h ih => rw [map, nodes, nodes, ih, List.map_cons, map]

/-! ### Preparing -/

section Init

variable {S τ : Type} [Initializable ι S τ] [CustomHandler κ S τ]

/-- Preparing a composite prepares its handler, and then its operands. -/
theorem run_init_boolean (r : Reducer) (ds : List (Detector ι κ)) (st : Settings) (h : Handler κ)
    (s : S) (target : Epoch) (m : Memory τ) :
    ((Detector.boolean r ds st h).init s target).run m =
      (.boolean r ((initAll ds s target).run ((h.init s target).run m).2).1 st h,
        ((initAll ds s target).run ((h.init s target).run m).2).2) :=
  rfl

/-- Preparing several detectors prepares the first one, and then the others. -/
theorem run_initAll_cons (d : Detector ι κ) (ds : List (Detector ι κ)) (s : S) (target : Epoch)
    (m : Memory τ) :
    (initAll (d :: ds) s target).run m =
      (((d.init s target).run m).1 ::
          ((initAll ds s target).run ((d.init s target).run m).2).1,
        ((initAll ds s target).run ((d.init s target).run m).2).2) :=
  rfl

/-- Preparing a detector changes its indicators only, by preparing them. -/
theorem UpTo.init {L : ι → ι → Prop} {d e : Detector ι κ} (h : d.UpTo L e)
    (hL : ∀ i j, L i j → ∀ (s : S) target (m : τ), L i (Initializable.init j s target m).1)
    (s : S) (target : Epoch) (m : Memory τ) : d.UpTo L ((e.init s target).run m).1 := by
  induction d generalizing e m with
  | atomic i =>
    cases h with
    | atomic indicator => exact .atomic (hL _ _ indicator s target _)
  | boolean r ds st hd ih =>
    cases h with
    | @boolean _ _ es _ _ operands =>
      have hall (m : Memory τ) : List.Forall₂ (UpTo L) ds ((initAll es s target).run m).1 := by
        induction operands generalizing m with
        | nil => exact .nil
        | cons hd _ ihds =>
          rw [run_initAll_cons]
          exact .cons (ih _ List.mem_cons_self hd _)
            (ihds (fun d hd => ih d (List.mem_cons_of_mem _ hd)) _)
      rw [run_init_boolean]
      exact .boolean (hall _)
  | negate d st hd ih =>
    cases h with
    | negate original => exact .negate (ih original _)

/-- Preparing a detector keeps its skeleton. -/
theorem skeleton_init (d : Detector ι κ) (s : S) (target : Epoch) (m : Memory τ) :
    ((d.init s target).run m).1.skeleton = d.skeleton := by
  have hd : d.UpTo (fun _ _ => True) d := .refl (fun _ => trivial) d
  exact (hd.init (fun _ _ _ _ _ _ => trivial) s target m).skeleton_eq

/-- A property that depends on skeletons holds of all nodes of a prepared detector exactly if it
holds of all nodes of the detector. -/
theorem forall_nodes_init {P : Detector Unit κ → Prop} (d : Detector ι κ) (s : S) (target : Epoch)
    (m : Memory τ) :
    (∀ e ∈ ((d.init s target).run m).1.nodes, P e.skeleton) ↔ ∀ e ∈ d.nodes, P e.skeleton := by
  have hnodes (d : Detector ι κ) :
      (∀ e ∈ d.nodes, P e.skeleton) ↔ ∀ e ∈ d.skeleton.nodes, P e := by
    rw [skeleton, nodes_map, List.forall_mem_map]
    rfl
  rw [hnodes, hnodes, skeleton_init]

end Init

end Detector

end TrajectoryEvents
