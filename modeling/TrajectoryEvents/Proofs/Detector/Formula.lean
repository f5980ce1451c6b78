import Mathlib.Data.List.Forall2
import TrajectoryEvents.Detector.Basic

/-!
# Detectors as formulas

A detector that is built from atomic ones is a formula: its leaves are indicators, and conjunction,
disjunction and negation stand above them. Given what the three connectives do with the elements of
some type, a formula has a value for every assignment of elements to its leaves.

## Main definitions

* `Detector.Built`: a detector built from atomic ones, with any rebuilding in between.
* `Detector.WellFormed`: a detector without a composite of no operands.
* `Detector.leaves`: the indicators of a detector, from left to right.
* `Connectives`, `Detector.formula`: the value of a formula.

## Main results

* `Detector.Built.wellFormed`: a detector that is built has no composite of no operands.
* `Detector.WellFormed.formula_rel`: what the connectives preserve passes from the leaves of a
  formula to its value.
-/

namespace TrajectoryEvents

variable {α β ι κ : Type}

/-- What conjunction, disjunction and negation do. -/
structure Connectives (α : Type) where
  and : α → α → α
  or : α → α → α
  not : α → α

namespace Connectives

/-- The connective of a reducer. -/
def binary (c : Connectives α) : Reducer → α → α → α
  | .min => c.and
  | .max => c.or

/-- Several elements joined by the connective of a reducer, from the left. -/
def join (c : Connectives α) (r : Reducer) : List α → Option α
  | [] => none
  | x :: xs => some (xs.foldl (c.binary r) x)

/-- The connectives of two types preserve a relation between them. -/
structure Preserve (c : Connectives α) (c' : Connectives β) (R : α → β → Prop) :
    Prop where
  and : ∀ {a b a' b'}, R a b → R a' b' → R (c.and a a') (c'.and b b')
  or : ∀ {a b a' b'}, R a b → R a' b' → R (c.or a a') (c'.or b b')
  not : ∀ {a b}, R a b → R (c.not a) (c'.not b)

/-- Related elements stay related when they are joined. -/
theorem Preserve.join {c : Connectives α} {c' : Connectives β} {R : α → β → Prop}
    (hc : c.Preserve c' R) (r : Reducer) {xs : List α} {ys : List β}
    (h : List.Forall₂ R xs ys) (hne : xs ≠ []) :
    ∃ x y, c.join r xs = some x ∧ c'.join r ys = some y ∧ R x y := by
  cases h with
  | nil => exact absurd rfl hne
  | cons hxy hrest =>
    refine ⟨_, _, rfl, rfl, ?_⟩
    refine List.rel_foldl (fun a b hab a' b' hab' => ?_) hxy hrest
    cases r with
    | min => exact hc.and hab hab'
    | max => exact hc.or hab hab'

end Connectives

namespace Detector

/-! ### Formulas -/

mutual

/-- The indicators of a detector, from left to right. -/
def leaves : Detector ι κ → List ι
  | .atomic i _ _ => [i]
  | .boolean _ ds _ _ => leavesAll ds
  | .negate d _ _ => leaves d

/-- The indicators of several detectors, from left to right. -/
def leavesAll : List (Detector ι κ) → List ι
  | [] => []
  | d :: ds => leaves d ++ leavesAll ds

end

mutual

/-- The value of a detector as a formula, given the elements at its leaves. -/
def formula (c : Connectives α) (leaf : ι → α) : Detector ι κ → Option α
  | .atomic i _ _ => some (leaf i)
  | .boolean r ds _ _ => (formulas c leaf ds).bind (c.join r)
  | .negate d _ _ => (formula c leaf d).map c.not

/-- The values of several detectors as formulas. -/
def formulas (c : Connectives α) (leaf : ι → α) : List (Detector ι κ) → Option (List α)
  | [] => some []
  | d :: ds => do
    let x ← formula c leaf d
    let xs ← formulas c leaf ds
    return x :: xs

end

/-- The indicators of several detectors are those of each. -/
theorem leavesAll_eq (ds : List (Detector ι κ)) : leavesAll ds = ds.flatMap leaves := by
  induction ds with
  | nil => rfl
  | cons d ds ih => rw [leavesAll, ih, List.flatMap_cons]

theorem mem_leavesAll {i : ι} {ds : List (Detector ι κ)} :
    i ∈ leavesAll ds ↔ ∃ d ∈ ds, i ∈ d.leaves := by
  rw [leavesAll_eq, List.mem_flatMap]

/-! ### Building -/

/-- A detector built from atomic ones by conjunction, disjunction and negation, with any rebuilding
in between. -/
inductive Built : Detector ι κ → Prop
  | atomic (i : ι) (s : Settings) (h : Handler κ) : Built (.atomic i s h)
  | compose {r : Reducer} {ds : List (Detector ι κ)} {d : Detector ι κ} (hds : ∀ d ∈ ds, Built d)
    (h : compose r ds = .ok d) : Built d
  | not {d : Detector ι κ} (hd : Built d) : Built d.not
  | rebuild {d d' : Detector ι κ} {call : Rebuild κ} (hd : Built d)
    (h : d.rebuild call = .ok d') : Built d'

/-- A detector without a composite of no operands. -/
inductive WellFormed : Detector ι κ → Prop
  | atomic (i : ι) (s : Settings) (h : Handler κ) : WellFormed (.atomic i s h)
  | boolean {r : Reducer} {ds : List (Detector ι κ)} {s : Settings} {h : Handler κ}
    (hne : ds ≠ []) (hds : ∀ d ∈ ds, WellFormed d) : WellFormed (.boolean r ds s h)
  | negate {d : Detector ι κ} {s : Settings} {h : Handler κ} (hd : WellFormed d) :
    WellFormed (.negate d s h)

/-- Other settings and another handler do not change the shape of a detector. -/
theorem WellFormed.withSettings {d : Detector ι κ} (hd : d.WellFormed) (s : Settings)
    (h : Handler κ) : (d.withSettings s h).WellFormed := by
  cases hd with
  | atomic i => exact .atomic i s h
  | boolean hne hds => exact .boolean hne hds
  | negate hd => exact .negate hd

/-- A call that changes one of the settings validates all three and keeps the handler. -/
theorem eq_of_validated {d d' : Detector ι κ} {s : Settings}
    (h : (s.validate >>= fun s => Except.ok (d.withSettings s d.handler)) = .ok d') :
    s.Valid ∧ d' = d.withSettings s d.handler := by
  cases hs : s.validate with
  | error e =>
    rw [hs] at h
    cases h
  | ok t =>
    obtain ⟨hvalid, rfl⟩ := Settings.validate_eq_ok_iff.1 hs
    rw [hs] at h
    exact ⟨hvalid, (Except.ok.inj h).symm⟩

/-- A rebuilt detector is the given one with other settings and another handler. -/
theorem exists_of_rebuild {d d' : Detector ι κ} {call : Rebuild κ}
    (h : d.rebuild call = .ok d') : ∃ s handler, d' = d.withSettings s handler := by
  cases call with
  | settings s handler => exact ⟨s, handler, (Except.ok.inj h).symm⟩
  | handler handler => exact ⟨d.settings, handler, (Except.ok.inj h).symm⟩
  | maxCheckInterval | threshold | maxIterationCount => exact ⟨_, _, (eq_of_validated h).2⟩

/-- A detector that is built has no composite of no operands. -/
theorem Built.wellFormed {d : Detector ι κ} (hd : d.Built) : d.WellFormed := by
  induction hd with
  | atomic i s h => exact .atomic i s h
  | @compose r ds d _ h ih =>
    unfold Detector.compose at h
    cases ds with
    -- no operands are refused
    | nil => cases h
    | cons d₀ rest =>
      obtain rfl := Except.ok.inj h
      exact .boolean nofun ih
  | not _ ih => exact .negate ih
  | rebuild _ h ih =>
    obtain ⟨s, handler, rfl⟩ := exists_of_rebuild h
    exact ih.withSettings s handler

/-! ### Related values -/

section Related

variable {c : Connectives α} {c' : Connectives β} {R : α → β → Prop}

/-- Values of several formulas are related if the values of each are. -/
private theorem formulas_rel {leaf : ι → α} {leaf' : ι → β} {ds : List (Detector ι κ)}
    (h : ∀ d ∈ ds, ∃ x y, d.formula c leaf = some x ∧ d.formula c' leaf' = some y ∧ R x y) :
    ∃ xs ys, formulas c leaf ds = some xs ∧ formulas c' leaf' ds = some ys ∧
      List.Forall₂ R xs ys ∧ xs.length = ds.length := by
  induction ds with
  | nil => exact ⟨[], [], rfl, rfl, .nil, rfl⟩
  | cons d ds ih =>
    obtain ⟨x, y, hx, hy, hxy⟩ := h d List.mem_cons_self
    obtain ⟨xs, ys, hxs, hys, hrest, hlen⟩ := ih fun d hd => h d (List.mem_cons_of_mem _ hd)
    refine ⟨x :: xs, y :: ys, ?_, ?_, .cons hxy hrest, by simp [hlen]⟩
    · simp [formulas, hx, hxs]
    · simp [formulas, hy, hys]

/-- What the connectives preserve passes from the leaves of a formula to its value. -/
theorem WellFormed.formula_rel {d : Detector ι κ} (hd : d.WellFormed) (hc : c.Preserve c' R)
    (leaf : ι → α) (leaf' : ι → β) (hleaf : ∀ i ∈ d.leaves, R (leaf i) (leaf' i)) :
    ∃ x y, d.formula c leaf = some x ∧ d.formula c' leaf' = some y ∧ R x y := by
  induction hd with
  | atomic i => exact ⟨_, _, rfl, rfl, hleaf i List.mem_cons_self⟩
  | @boolean r ds _ _ hne _ ih =>
    obtain ⟨xs, ys, hxs, hys, hrel, hlen⟩ := formulas_rel fun d hd =>
      ih d hd fun i hi => hleaf i (mem_leavesAll.2 ⟨d, hd, hi⟩)
    have hxne : xs ≠ [] := by
      rintro rfl
      exact hne (List.length_eq_zero_iff.1 hlen.symm)
    obtain ⟨x, y, hx, hy, hxy⟩ := hc.join r hrel hxne
    refine ⟨x, y, ?_, ?_, hxy⟩
    · simp [formula, hxs, hx]
    · simp [formula, hys, hy]
  | negate _ ih =>
    obtain ⟨x, y, hx, hy, hxy⟩ := ih hleaf
    refine ⟨c.not x, c'.not y, ?_, ?_, hc.not hxy⟩
    · simp [formula, hx]
    · simp [formula, hy]

end Related

end Detector

end TrajectoryEvents
