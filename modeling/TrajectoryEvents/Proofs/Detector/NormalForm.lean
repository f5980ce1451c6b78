import TrajectoryEvents.Proofs.Detector.Formula
import TrajectoryEvents.Proofs.Detector.Preparation

/-!
# Normal forms

The normal form of a detector has negations above its leaves only, and no composite right below one
of the same reducer. It is found by moving negations towards the leaves, where conjunction and
disjunction change places on the way, and by merging the operands of composites with the same
reducer. The leaves stay in order.

## Main definitions

* `Detector.normalForm`: the normal form of a detector.
* `Detector.IsNormal`: a detector in normal form.
* `Connectives.Lawful`: connectives that satisfy the laws behind the moves.
* `Detector.Quiet`: a detector that only has handlers that always continue.

## Main results

* `Detector.isNormal_normalize`, `Detector.leaves_normalize`: a normal form is one, and has the same
  leaves in the same order.
* `Detector.WellFormed.formula_normalForm`: a formula and its normal form have the same value.
* `Detector.Quiet.run_init_normalize`: preparing a normal form is preparing the detector.
-/

namespace TrajectoryEvents

variable {α ι κ : Type}

/-- The reducer that stands for another one below a negation. -/
def Reducer.dual : Reducer → Reducer
  | .min => .max
  | .max => .min

/-- The reducer that stands for another one, below a negation or not. -/
def Reducer.under (negated : Bool) (r : Reducer) : Reducer := if negated then r.dual else r

namespace Detector

/-! ### Normalization -/

/-- What a detector contributes to a composite: the operands of a composite with the same reducer,
and any other detector as it is. -/
def parts (r : Reducer) (d : Detector ι κ) : List (Detector ι κ) :=
  match d with
  | .boolean r' ds _ _ => if r' = r then ds else [d]
  | _ => [d]

/-- The composite of several detectors, with the standard settings if there are none. -/
def junction (r : Reducer) (ds : List (Detector ι κ)) : Detector ι κ :=
  .boolean r ds ((Settings.mostStringent (ds.map settings)).getD .standard) .continueOnEvent

mutual

/-- The normal form of a detector, or of its negation. -/
def normalize (negated : Bool) : Detector ι κ → Detector ι κ
  | .atomic i s h => if negated then not (.atomic i s h) else .atomic i s h
  | .boolean r ds _ _ => junction (r.under negated) (normalizeAll negated (r.under negated) ds)
  | .negate d _ _ => normalize (!negated) d

/-- What the normal forms of several detectors, or of their negations, contribute to a composite. -/
def normalizeAll (negated : Bool) (r : Reducer) : List (Detector ι κ) → List (Detector ι κ)
  | [] => []
  | d :: ds => parts r (normalize negated d) ++ normalizeAll negated r ds

end

/-- The normal form of a detector. -/
def normalForm (d : Detector ι κ) : Detector ι κ := normalize false d

/-- A composite in a normal form is the one that conjunction or disjunction build. -/
theorem compose_eq_junction (r : Reducer) {ds : List (Detector ι κ)} (h : ds ≠ []) :
    compose r ds = .ok (junction r ds) := by
  cases ds with
  | nil => exact absurd rfl h
  | cons => rfl

/-! ### Shape -/

/-- The reducer of a composite. -/
def reducer? : Detector ι κ → Option Reducer
  | .boolean r _ _ _ => some r
  | _ => none

/-- A detector in normal form: negations stand above leaves only, and no composite stands right
below one of the same reducer. -/
inductive IsNormal : Detector ι κ → Prop
  | atomic (i : ι) (s : Settings) (h : Handler κ) : IsNormal (.atomic i s h)
  | negate (i : ι) (s s' : Settings) (h h' : Handler κ) :
    IsNormal (.negate (.atomic i s h) s' h')
  | boolean {r : Reducer} {ds : List (Detector ι κ)} {s : Settings} {h : Handler κ}
    (hds : ∀ d ∈ ds, IsNormal d) (hr : ∀ d ∈ ds, d.reducer? ≠ some r) :
    IsNormal (.boolean r ds s h)

/-- A detector of another kind, or of another reducer, is its only part. -/
theorem parts_of_ne {r : Reducer} {d : Detector ι κ} (h : d.reducer? ≠ some r) :
    parts r d = [d] := by
  cases d with
  | boolean r' ds s handler =>
    have hr : r' ≠ r := fun heq => h (congrArg some heq)
    simp only [parts, if_neg hr]
  | atomic | negate => rfl

/-- What a detector contributes to a composite is its operands or the detector itself. -/
theorem parts_cases (r : Reducer) (d : Detector ι κ) :
    (∃ ds s h, d = .boolean r ds s h ∧ parts r d = ds) ∨
      d.reducer? ≠ some r ∧ parts r d = [d] := by
  by_cases h : d.reducer? = some r
  · cases d with
    | boolean r' ds s handler =>
      obtain rfl := Option.some.inj h
      exact .inl ⟨ds, s, handler, rfl, by simp only [parts, if_true]⟩
    | atomic | negate => cases h
  · exact .inr ⟨h, parts_of_ne h⟩

/-- What detectors in normal form contribute to a composite keeps it in normal form. -/
theorem IsNormal.of_mem_parts {r : Reducer} {d e : Detector ι κ} (hd : d.IsNormal)
    (he : e ∈ parts r d) : e.IsNormal ∧ e.reducer? ≠ some r := by
  rcases parts_cases r d with ⟨ds, s, h, rfl, hparts⟩ | ⟨hr, hparts⟩
  · rw [hparts] at he
    cases hd with
    | boolean hds hne => exact ⟨hds e he, hne e he⟩
  · rw [hparts, List.mem_singleton] at he
    exact he ▸ ⟨hd, hr⟩

theorem mem_normalizeAll {negated : Bool} {r : Reducer} {ds : List (Detector ι κ)}
    {e : Detector ι κ} :
    e ∈ normalizeAll negated r ds ↔ ∃ d ∈ ds, e ∈ parts r (normalize negated d) := by
  induction ds with
  | nil => simp [normalizeAll]
  | cons d ds ih => simp [normalizeAll, ih]

/-- A normal form is in normal form. -/
theorem isNormal_normalize (negated : Bool) (d : Detector ι κ) :
    (normalize negated d).IsNormal := by
  induction d generalizing negated with
  | atomic i s h =>
    cases negated with
    | false => exact .atomic i s h
    | true => exact .negate i s s h .continueOnEvent
  | boolean r ds s h ih =>
    have hparts : ∀ e ∈ normalizeAll negated (r.under negated) ds,
        e.IsNormal ∧ e.reducer? ≠ some (r.under negated) := by
      intro e he
      obtain ⟨d, hd, he⟩ := mem_normalizeAll.1 he
      exact (ih d hd negated).of_mem_parts he
    exact .boolean (fun e he => (hparts e he).1) fun e he => (hparts e he).2
  | negate d s h ih => exact ih (!negated)

/-- The parts of a detector have its leaves. -/
theorem leavesAll_parts (r : Reducer) (d : Detector ι κ) : leavesAll (parts r d) = d.leaves := by
  rcases parts_cases r d with ⟨ds, s, h, rfl, hparts⟩ | ⟨-, hparts⟩
  · rw [hparts, leaves]
  · rw [hparts, leavesAll, leavesAll, List.append_nil]

/-- A normal form has the same leaves, in the same order. -/
theorem leaves_normalize (negated : Bool) (d : Detector ι κ) :
    (normalize negated d).leaves = d.leaves := by
  induction d generalizing negated with
  | atomic i s h => cases negated <;> rfl
  | boolean r ds s h ih =>
    rw [normalize, junction, leaves, leaves]
    -- the leaves of the operands come one after another
    induction ds with
    | nil => rfl
    | cons d ds ihds =>
      rw [normalizeAll, leavesAll_eq, List.flatMap_append, ← leavesAll_eq, ← leavesAll_eq,
        leavesAll_parts, ih d List.mem_cons_self, ihds fun d hd => ih d (List.mem_cons_of_mem _ hd),
        leavesAll]
  | negate d s h ih => rw [normalize, ih, leaves]

/-- The parts of a well-formed detector are well-formed, and there are some. -/
theorem WellFormed.parts {r : Reducer} {d : Detector ι κ} (hd : d.WellFormed) :
    parts r d ≠ [] ∧ ∀ e ∈ parts r d, e.WellFormed := by
  rcases parts_cases r d with ⟨ds, s, h, rfl, hparts⟩ | ⟨-, hparts⟩
  · rw [hparts]
    cases hd with
    | boolean hne hds => exact ⟨hne, hds⟩
  · rw [hparts]
    exact ⟨List.cons_ne_nil _ _, List.forall_mem_singleton.2 hd⟩

/-- A normal form of a well-formed detector is well-formed. -/
theorem WellFormed.normalize {d : Detector ι κ} (hd : d.WellFormed) (negated : Bool) :
    (normalize negated d).WellFormed := by
  induction hd generalizing negated with
  | atomic i s h =>
    cases negated with
    | false => exact .atomic i s h
    | true => exact .negate (.atomic i s h)
  | @boolean r ds s h hne hds ih =>
    refine .boolean ?_ ?_
    · obtain ⟨d, rest, rfl⟩ := List.exists_cons_of_ne_nil hne
      exact List.append_ne_nil_of_left_ne_nil (ih d List.mem_cons_self negated).parts.1 _
    · intro e he
      obtain ⟨d, hd, he⟩ := mem_normalizeAll.1 he
      exact (ih d hd negated).parts.2 e he
  | negate _ ih => exact ih (!negated)

/-- A well-formed detector can be built. -/
theorem WellFormed.built {d : Detector ι κ} (hd : d.WellFormed) : d.Built := by
  induction hd with
  | atomic i s h => exact .atomic i s h
  | @boolean r ds s h hne _ ih =>
    -- a composite that is rebuilt may have any settings and any handler
    have hrebuild : (junction r ds).rebuild (.settings s h) = .ok (.boolean r ds s h) := rfl
    exact .rebuild (.compose ih (compose_eq_junction r hne)) hrebuild
  | @negate d s h _ ih =>
    have hrebuild : d.not.rebuild (.settings s h) = .ok (.negate d s h) := rfl
    exact .rebuild (.not ih) hrebuild

end Detector

/-! ### Laws of connectives -/

namespace Connectives

variable {c : Connectives α}

/-- Connectives with the laws that normal forms rely on. -/
structure Lawful (c : Connectives α) : Prop where
  not_not : ∀ a, c.not (c.not a) = a
  not_and : ∀ a b, c.not (c.and a b) = c.or (c.not a) (c.not b)
  not_or : ∀ a b, c.not (c.or a b) = c.and (c.not a) (c.not b)
  and_assoc : ∀ a b d, c.and (c.and a b) d = c.and a (c.and b d)
  or_assoc : ∀ a b d, c.or (c.or a b) d = c.or a (c.or b d)

/-- An element or its negation. -/
def signed (c : Connectives α) (negated : Bool) (x : α) : α := if negated then c.not x else x

namespace Lawful

/-- The connective of a reducer is associative. -/
theorem binary_assoc (hc : c.Lawful) (r : Reducer) (a b d : α) :
    c.binary r (c.binary r a b) d = c.binary r a (c.binary r b d) := by
  cases r with
  | min => exact hc.and_assoc a b d
  | max => exact hc.or_assoc a b d

/-- Below a negation, the connective of a reducer becomes that of its dual. -/
theorem signed_binary (hc : c.Lawful) (negated : Bool) (r : Reducer) (a b : α) :
    c.signed negated (c.binary r a b) =
      c.binary (r.under negated) (c.signed negated a) (c.signed negated b) := by
  cases negated with
  | false => rfl
  | true =>
    cases r with
    | min => exact hc.not_and a b
    | max => exact hc.not_or a b

/-- A negation below a negation is none. -/
theorem signed_not (hc : c.Lawful) (negated : Bool) (x : α) :
    c.signed (!negated) x = c.signed negated (c.not x) := by
  cases negated with
  | false => rfl
  | true => exact (hc.not_not x).symm

/-- Below a negation, elements are joined negated and by the dual reducer. -/
theorem signed_join (hc : c.Lawful) (negated : Bool) (r : Reducer) (xs : List α) :
    (c.join r xs).map (c.signed negated) =
      c.join (r.under negated) (xs.map (c.signed negated)) := by
  cases xs with
  | nil => rfl
  | cons x xs =>
    refine congrArg some ?_
    induction xs generalizing x with
    | nil => rfl
    | cons y ys ih =>
      rw [List.foldl_cons, ih, List.map_cons, List.foldl_cons, hc.signed_binary]

/-- Elements can be joined in two parts. -/
theorem join_append (hc : c.Lawful) {r : Reducer} {xs ys : List α} {x y : α}
    (hx : c.join r xs = some x) (hy : c.join r ys = some y) :
    c.join r (xs ++ ys) = some (c.binary r x y) := by
  have hfold (ys : List α) (x y : α) :
      c.binary r x (ys.foldl (c.binary r) y) = ys.foldl (c.binary r) (c.binary r x y) := by
    induction ys generalizing y with
    | nil => rfl
    | cons z zs ih => rw [List.foldl_cons, List.foldl_cons, ih, hc.binary_assoc]
  cases xs with
  | nil => cases hx
  | cons x₀ xs =>
    cases ys with
    | nil => cases hy
    | cons y₀ ys =>
      obtain rfl := Option.some.inj hx
      obtain rfl := Option.some.inj hy
      rw [hfold, ← List.foldl_cons, ← List.foldl_append]
      rfl

end Lawful

end Connectives

namespace Detector

/-! ### Values of normal forms -/

section Formula

variable {c : Connectives α} {leaf : ι → α}

/-- The value of several formulas joined together. -/
def joined (c : Connectives α) (leaf : ι → α) (r : Reducer) (ds : List (Detector ι κ)) : Option α :=
  (formulas c leaf ds).bind (c.join r)

/-- The parts of a detector joined together have its value. -/
theorem joined_parts (r : Reducer) (d : Detector ι κ) :
    joined c leaf r (parts r d) = d.formula c leaf := by
  rcases parts_cases r d with ⟨ds, s, h, rfl, hparts⟩ | ⟨-, hparts⟩
  · rw [hparts, formula, joined]
  · rw [hparts, joined, formulas, formulas]
    cases d.formula c leaf <;> rfl

theorem formulas_append (ds es : List (Detector ι κ)) :
    formulas c leaf (ds ++ es) =
      (formulas c leaf ds).bind fun xs => (formulas c leaf es).map (xs ++ ·) := by
  induction ds with
  | nil => simp [formulas]
  | cons d ds ih =>
    rw [List.cons_append, formulas, ih, formulas]
    cases d.formula c leaf <;> cases formulas c leaf ds <;> cases formulas c leaf es <;> rfl

/-- Formulas can be joined in two parts. -/
theorem joined_append (hc : c.Lawful) {r : Reducer} {ds es : List (Detector ι κ)} {x y : α}
    (hx : joined c leaf r ds = some x) (hy : joined c leaf r es = some y) :
    joined c leaf r (ds ++ es) = some (c.binary r x y) := by
  obtain ⟨xs, hxs, hx⟩ := Option.bind_eq_some_iff.1 hx
  obtain ⟨ys, hys, hy⟩ := Option.bind_eq_some_iff.1 hy
  rw [joined, formulas_append, hxs, hys]
  exact hc.join_append hx hy

/-- Formulas with values, whose normal forms have the values of the formulas or of their negations,
contribute these to a composite. -/
private theorem joined_normalizeAll (hc : c.Lawful) {negated : Bool} (r : Reducer)
    {d : Detector ι κ} {ds : List (Detector ι κ)}
    (h : ∀ e ∈ d :: ds, ∃ x, e.formula c leaf = some x ∧
      (normalize negated e).formula c leaf = some (c.signed negated x)) :
    ∃ x xs, formulas c leaf (d :: ds) = some (x :: xs) ∧
      joined c leaf r (normalizeAll negated r (d :: ds)) =
        c.join r ((x :: xs).map (c.signed negated)) := by
  induction ds generalizing d with
  | nil =>
    obtain ⟨x, hx, hn⟩ := h d List.mem_cons_self
    refine ⟨x, [], by simp [formulas, hx], ?_⟩
    rw [normalizeAll, normalizeAll, List.append_nil, joined_parts, hn]
    rfl
  | cons d' ds ih =>
    obtain ⟨x, hx, hn⟩ := h d List.mem_cons_self
    obtain ⟨y, ys, hys, hrest⟩ := ih fun e he => h e (List.mem_cons_of_mem _ he)
    refine ⟨x, y :: ys, by rw [formulas, hx, hys]; rfl, ?_⟩
    -- the parts of the first detector join to one element, and those of the others to another
    have hhead : joined c leaf r (parts r (normalize negated d)) =
        c.join r [c.signed negated x] := by
      rw [joined_parts, hn]
      rfl
    rw [normalizeAll, joined_append hc hhead hrest]
    have hx : c.join r [c.signed negated x] = some (c.signed negated x) := rfl
    exact (hc.join_append hx rfl).symm

/-- The normal form of a well-formed detector, or of its negation, has the value of the formula, or
of its negation. -/
theorem WellFormed.formula_normalize (hc : c.Lawful) {d : Detector ι κ} (hd : d.WellFormed)
    (leaf : ι → α) (negated : Bool) : ∃ x, d.formula c leaf = some x ∧
      (Detector.normalize negated d).formula c leaf = some (c.signed negated x) := by
  induction hd generalizing negated with
  | atomic i => cases negated <;> exact ⟨leaf i, rfl, rfl⟩
  | @boolean r ds s h hne _ ih =>
    obtain ⟨d, rest, rfl⟩ := List.exists_cons_of_ne_nil hne
    obtain ⟨x, xs, hxs, hjoin⟩ := joined_normalizeAll hc (r.under negated) fun e he =>
      ih e he negated
    refine ⟨xs.foldl (c.binary r) x, by rw [formula, hxs]; rfl, ?_⟩
    rw [Detector.normalize, junction, formula, ← joined, hjoin, ← hc.signed_join]
    rfl
  | negate _ ih =>
    obtain ⟨x, hx, hn⟩ := ih (!negated)
    refine ⟨c.not x, by rw [formula, hx]; rfl, ?_⟩
    rw [Detector.normalize, hn, hc.signed_not]

/-- A formula and its normal form have the same value. -/
theorem WellFormed.formula_normalForm (hc : c.Lawful) {d : Detector ι κ} (hd : d.WellFormed) :
    d.normalForm.formula c leaf = d.formula c leaf := by
  obtain ⟨x, hx, hn⟩ := hd.formula_normalize hc leaf false
  rw [normalForm, hn, hx]
  rfl

end Formula

/-! ### Preparing normal forms -/

/-- A detector whose handlers, inner ones included, all are the one that always continues. -/
inductive Quiet : Detector ι κ → Prop
  | atomic (i : ι) (s : Settings) : Quiet (.atomic i s .continueOnEvent)
  | boolean {r : Reducer} {ds : List (Detector ι κ)} {s : Settings} (hds : ∀ d ∈ ds, Quiet d) :
    Quiet (.boolean r ds s .continueOnEvent)
  | negate {d : Detector ι κ} {s : Settings} (hd : Quiet d) :
    Quiet (.negate d s .continueOnEvent)

/-- The handler of a quiet detector always continues. -/
theorem Quiet.handler_eq {d : Detector ι κ} (hd : d.Quiet) : d.handler = .continueOnEvent := by
  cases hd <;> rfl

/-- The parts of a quiet detector are quiet. -/
theorem Quiet.parts {r : Reducer} {d : Detector ι κ} (hd : d.Quiet) :
    ∀ e ∈ parts r d, e.Quiet := by
  rcases parts_cases r d with ⟨ds, s, h, rfl, hparts⟩ | ⟨-, hparts⟩
  · rw [hparts]
    cases hd with
    | boolean hds => exact hds
  · rw [hparts]
    exact List.forall_mem_singleton.2 hd

/-- A normal form of a quiet detector is quiet. -/
theorem Quiet.normalize {d : Detector ι κ} (hd : d.Quiet) (negated : Bool) :
    (normalize negated d).Quiet := by
  induction hd generalizing negated with
  | atomic i s =>
    cases negated with
    | false => exact .atomic i s
    | true => exact .negate (.atomic i s)
  | boolean _ ih =>
    refine .boolean fun e he => ?_
    obtain ⟨d, hd, he⟩ := mem_normalizeAll.1 he
    exact (ih d hd negated).parts e he
  | negate _ ih => exact ih (!negated)

section Init

variable {S τ : Type} [Initializable ι S τ] [CustomHandler κ S τ]

/-- Preparing a detector leaves it of the kind that it is. -/
theorem reducer?_init (d : Detector ι κ) (s : S) (target : Epoch) (m : Memory τ) :
    ((d.init s target).run m).1.reducer? = d.reducer? := by
  cases d <;> rfl

/-- Preparing several detectors keeps their settings. -/
theorem settings_initAll (ds : List (Detector ι κ)) (s : S) (target : Epoch) (m : Memory τ) :
    ((initAll ds s target).run m).1.map settings = ds.map settings := by
  induction ds generalizing m with
  | nil => rfl
  | cons d ds ih => rw [run_initAll_cons, List.map_cons, List.map_cons, settings_init, ih]

/-- Detectors are prepared one after another. -/
theorem run_initAll_append (ds es : List (Detector ι κ)) (s : S) (target : Epoch) (m : Memory τ) :
    (initAll (ds ++ es) s target).run m =
      (((initAll ds s target).run m).1 ++
          ((initAll es s target).run ((initAll ds s target).run m).2).1,
        ((initAll es s target).run ((initAll ds s target).run m).2).2) := by
  induction ds generalizing m with
  | nil => rfl
  | cons d ds ih => simp only [List.cons_append, run_initAll_cons, ih]

/-- Each of several prepared detectors is one of them, prepared in some memory. -/
theorem exists_of_mem_initAll {ds : List (Detector ι κ)} {s : S} {target : Epoch} {m : Memory τ}
    {e : Detector ι κ} (he : e ∈ ((initAll ds s target).run m).1) :
    ∃ d ∈ ds, ∃ m' : Memory τ, e = ((d.init s target).run m').1 := by
  induction ds generalizing m with
  | nil => cases he
  | cons d ds ih =>
    rw [run_initAll_cons, List.mem_cons] at he
    rcases he with rfl | he
    · exact ⟨d, List.mem_cons_self, m, rfl⟩
    · obtain ⟨d', hd', m', rfl⟩ := ih he
      exact ⟨d', List.mem_cons_of_mem _ hd', m', rfl⟩

/-- Preparing a well-formed detector leaves it well-formed. -/
theorem WellFormed.init {d : Detector ι κ} (hd : d.WellFormed) (s : S) (target : Epoch)
    (m : Memory τ) : ((d.init s target).run m).1.WellFormed := by
  induction hd generalizing m with
  | atomic i st h => exact .atomic _ st h
  | @boolean r ds st h hne _ ih =>
    rw [run_init_boolean]
    refine .boolean (fun hnil => hne ?_) fun e he => ?_
    · have hsettings := settings_initAll ds s target ((h.init s target).run m).2
      rw [hnil] at hsettings
      exact List.map_eq_nil_iff.1 hsettings.symm
    · obtain ⟨d, hd, m', rfl⟩ := exists_of_mem_initAll he
      exact ih d hd m'
  | negate _ ih => exact .negate (ih _)

/-- Preparing a composite in a normal form prepares its operands. -/
theorem run_init_junction (r : Reducer) (ds : List (Detector ι κ)) (s : S) (target : Epoch)
    (m : Memory τ) :
    ((junction r ds).init s target).run m =
      (junction r ((initAll ds s target).run m).1, ((initAll ds s target).run m).2) := by
  rw [junction, junction, settings_initAll, run_init_boolean]
  rfl

/-- Preparing the parts of a quiet detector is preparing the detector. -/
theorem Quiet.run_initAll_parts {d : Detector ι κ} (hd : d.Quiet) (r : Reducer) (s : S)
    (target : Epoch) (m : Memory τ) :
    (initAll (Detector.parts r d) s target).run m =
      (Detector.parts r ((d.init s target).run m).1, ((d.init s target).run m).2) := by
  rcases parts_cases r d with ⟨ds, st, h, rfl, hparts⟩ | ⟨hr, hparts⟩
  · cases hd with
    | boolean hds =>
      rw [hparts, run_init_boolean, Detector.parts, if_pos rfl]
      rfl
  · rw [← reducer?_init d s target m] at hr
    rw [hparts, parts_of_ne hr]
    rfl

/-- Preparing what normal forms contribute to a composite is preparing the detectors. -/
private theorem run_initAll_normalizeAll {negated : Bool} (r : Reducer) {ds : List (Detector ι κ)}
    (s : S) (target : Epoch)
    (h : ∀ d ∈ ds, d.Quiet ∧ ∀ m : Memory τ,
      ((Detector.normalize negated d).init s target).run m =
        (Detector.normalize negated ((d.init s target).run m).1, ((d.init s target).run m).2))
    (m : Memory τ) :
    (initAll (normalizeAll negated r ds) s target).run m =
      (normalizeAll negated r ((initAll ds s target).run m).1,
        ((initAll ds s target).run m).2) := by
  induction ds generalizing m with
  | nil => rfl
  | cons d ds ih =>
    obtain ⟨hd, hinit⟩ := h d List.mem_cons_self
    have hrest := ih fun e he => h e (List.mem_cons_of_mem _ he)
    rw [normalizeAll, run_initAll_append, (hd.normalize negated).run_initAll_parts, hinit, hrest,
      run_initAll_cons, normalizeAll]

/-- Preparing a normal form of a quiet detector is preparing the detector. -/
theorem Quiet.run_init_normalize {d : Detector ι κ} (hd : d.Quiet) (negated : Bool) (s : S)
    (target : Epoch) (m : Memory τ) :
    ((Detector.normalize negated d).init s target).run m =
      (Detector.normalize negated ((d.init s target).run m).1, ((d.init s target).run m).2) := by
  induction hd generalizing negated m with
  | atomic i st => cases negated <;> rfl
  | @boolean r ds st hds ih =>
    have hall := run_initAll_normalizeAll (r.under negated) s target
      fun d hd => ⟨hds d hd, ih d hd negated⟩
    rw [Detector.normalize, run_init_junction, hall]
    rfl
  | negate _ ih => exact ih (!negated) m

end Init

end Detector

end TrajectoryEvents
