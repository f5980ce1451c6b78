import TrajectoryEvents.Proofs.Detector.Formula
import TrajectoryEvents.Proofs.Detector.Preparation
import TrajectoryEvents.Proofs.Search.Lockstep

/-!
# Preparing detectors in lockstep

Two detectors that differ in their indicators only are prepared in lockstep if their indicators and
handlers are. The handler of a detector comes first, so that what it leaves is what the others
find.

## Main definitions

* `Detector.initBelow`: preparing a detector, except for its own handler.

## Main results

* `Detector.UpTo.inStep_initBelow`: detectors are prepared in lockstep, except for their own
  handlers, if their indicators and the handlers below are.
-/

namespace TrajectoryEvents

namespace Detector

variable {ι κ S τ : Type} [Initializable ι S τ] [CustomHandler κ S τ]

/-- Prepare a detector, except for its own handler. -/
def initBelow (d : Detector ι κ) (s : S) (target : Epoch) : StateM (Memory τ) (Detector ι κ) :=
  match d with
  | .atomic i st h => do
    let i ← Memory.withCustom (Initializable.init i s target)
    return .atomic i st h
  | .boolean r ds st h => do
    let ds ← initAll ds s target
    return .boolean r ds st h
  | .negate d st h => do
    let d ← d.init s target
    return .negate d st h

/-- The handler of a detector is prepared first. -/
theorem init_eq (d : Detector ι κ) (s : S) (target : Epoch) :
    (d.init s target : StateM (Memory τ) (Detector ι κ)) =
      (do d.handler.init s target; d.initBelow s target) := by
  cases d <;> rfl

/-- Several detectors are prepared in lockstep if each of them is. -/
private theorem inStep_initAll {L : ι → ι → Prop} {R : Memory τ → Memory τ → Prop}
    {ds es : List (Detector ι κ)} {s : S} {target : Epoch} (h : List.Forall₂ (UpTo L) ds es)
    (hd : ∀ d ∈ ds, ∀ e, d.UpTo L e → InStep R (d.init s target) (e.init s target)) :
    InStep R (initAll ds s target) (initAll es s target) := by
  induction h with
  | nil => exact .pure _
  | cons hde _ ih =>
    simp only [initAll]
    refine .bind (hd _ List.mem_cons_self _ hde) fun d => ?_
    exact .bind (ih fun d hmem => hd d (List.mem_cons_of_mem _ hmem)) fun ds => .pure _

namespace UpTo

variable {L : ι → ι → Prop} {R : Memory τ → Memory τ → Prop} {d e : Detector ι κ} {s : S}
  {target : Epoch}

/-- Detectors are prepared in lockstep if their handlers are, and what is below them. -/
theorem inStep_init (h : d.UpTo L e)
    (hhandler : InStep R (d.handler.init s target) (d.handler.init s target))
    (hbelow : InStep R (d.initBelow s target) (e.initBelow s target)) :
    InStep R (d.init s target) (e.init s target) := by
  rw [init_eq, init_eq, h.handler_eq]
  exact .bind hhandler fun _ => hbelow

/-- Detectors are prepared in lockstep, except for their own handlers, if their indicators and the
handlers below are. -/
theorem inStep_initBelow (h : d.UpTo L e)
    (hleaf : ∀ i ∈ d.leaves, ∀ j, L i j →
      InStep R (Memory.withCustom (Initializable.init i s target))
        (Memory.withCustom (Initializable.init j s target)))
    (hhandler : ∀ x ∈ d.nodes, InStep R (x.handler.init s target) (x.handler.init s target)) :
    InStep R (d.initBelow s target) (e.initBelow s target) := by
  induction d generalizing e with
  | atomic i =>
    cases h with
    | atomic indicator => exact .bind (hleaf i List.mem_cons_self _ indicator) fun j => .pure _
  | boolean r ds st hd ih =>
    cases h with
    | boolean operands =>
      refine .bind (inStep_initAll operands fun d hd e he => ?_) fun ds => .pure _
      have hnode (x) (hx : x ∈ d.nodes) : x ∈ nodesAll ds := mem_nodesAll.2 ⟨d, hd, hx⟩
      refine he.inStep_init (hhandler d (List.mem_cons_of_mem _ (hnode d d.mem_nodes_self))) ?_
      exact ih d hd he (fun i hi => hleaf i (mem_leavesAll.2 ⟨d, hd, hi⟩)) fun x hx =>
        hhandler x (List.mem_cons_of_mem _ (hnode x hx))
  | negate d st hd ih =>
    cases h with
    | negate original =>
      refine .bind (original.inStep_init ?_ ?_) fun d => .pure _
      · exact hhandler d (List.mem_cons_of_mem _ d.mem_nodes_self)
      · exact ih original hleaf fun x hx => hhandler x (List.mem_cons_of_mem _ hx)

end UpTo

end Detector

end TrajectoryEvents
