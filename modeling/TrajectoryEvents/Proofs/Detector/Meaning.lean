import TrajectoryEvents.Detector.Value
import TrajectoryEvents.Proofs.Binary64.Arithmetic
import TrajectoryEvents.Proofs.Detector.Formula

/-!
# The meaning of a detector

The value of a detector is that of a formula over the values of its leaves, and its sign is the
truth value of the formula in strong Kleene logic. Failures and values that are not numbers take
precedence: the first leaf that fails decides the error, and otherwise a leaf without a number
leaves the detector without one.

## Main definitions

* `Detector.FirstFailure`: the first failure in a list of indicators.
* `Connectives.numeric`: minimum, maximum and negation.
* `Truth`, `Truth.kleene`: the truth values of strong Kleene logic and its connectives.
* `Connectives.computed`: the connectives as a detector computes them.

## Main results

* `Detector.WellFormed.g_eq_error`, `Detector.WellFormed.exists_g_eq`: a detector fails as its first
  failing leaf does, and otherwise computes its formula.
* `Detector.Built.g_meaning`: the meaning of a detector.
-/

namespace TrajectoryEvents

/-! ### Truth values -/

/-- The truth values of three-valued logic: false, unknown and true. -/
inductive Truth
  | no
  | unknown
  | yes
deriving DecidableEq, Repr

namespace Truth

/-- The truth value that the sign of a value stands for. -/
def ofValue (v : Float) : Truth :=
  if v < 0.0 then .no else if 0.0 < v then .yes else .unknown

/-- A conjunction is false as soon as one side is, and true only if both are. -/
protected def and : Truth → Truth → Truth
  | .no, _ => .no
  | _, .no => .no
  | .yes, .yes => .yes
  | _, _ => .unknown

/-- A disjunction is true as soon as one side is, and false only if both are. -/
protected def or : Truth → Truth → Truth
  | .yes, _ => .yes
  | _, .yes => .yes
  | .no, .no => .no
  | _, _ => .unknown

/-- Negation leaves the unknown unknown. -/
protected def not : Truth → Truth
  | .no => .yes
  | .unknown => .unknown
  | .yes => .no

/-- Strong Kleene logic. -/
def kleene : Connectives Truth := ⟨Truth.and, Truth.or, Truth.not⟩

end Truth

/-! ### Connectives of values -/

namespace Connectives

/-- Conjunction as minimum, disjunction as maximum, and negation. -/
def numeric : Connectives Float := ⟨min, max, fun v => -v⟩

/-- The connectives as a detector computes them. -/
def computed : Connectives Float := ⟨Reducer.min.apply, Reducer.max.apply, fun v => -v⟩

/-- Whether some leaf has a property. -/
def anyOf : Connectives Bool := ⟨(· || ·), (· || ·), id⟩

end Connectives

section Values

open Binary64

variable {a b : Float}

/-- A value that is not a number makes the combined one none. -/
theorem isNaN_apply (r : Reducer) (a b : Float) :
    (r.apply a b).isNaN = (a.isNaN || b.isNaN) := by
  unfold Reducer.apply
  by_cases h : (a.isNaN || b.isNaN) = true
  · rw [if_pos h, h]
    rfl
  · rw [if_neg h]
    rw [Bool.not_eq_true] at h
    obtain ⟨ha, hb⟩ := Bool.or_eq_false_iff.1 h
    rw [h]
    cases r <;> simp only <;> split <;> first | exact ha | exact hb

/-- A conjunction stands at the lesser of two places. -/
theorem place_min_apply (ha : a.isNaN = false) (hb : b.isNaN = false) :
    place (Reducer.min.apply a b) = min (place a) (place b) := by
  simp only [Reducer.apply, ha, hb, Bool.or_self, Bool.false_eq_true, if_false,
    Binary64.lt_iff, true_and]
  split <;> omega

/-- A disjunction stands at the greater of two places. -/
theorem place_max_apply (ha : a.isNaN = false) (hb : b.isNaN = false) :
    place (Reducer.max.apply a b) = max (place a) (place b) := by
  simp only [Reducer.apply, ha, hb, Bool.or_self, Bool.false_eq_true, if_false,
    Binary64.lt_iff, true_and]
  split <;> omega

/-- The lesser of two numbers stands at the lesser of their places. -/
theorem place_min (ha : a.isNaN = false) (hb : b.isNaN = false) :
    (min a b).isNaN = false ∧ place (min a b) = min (place a) (place b) := by
  -- the minimum of two doubles is defined by the comparison
  change (ite (a ≤ b) a b).isNaN = false ∧ place (ite (a ≤ b) a b) = _
  simp only [Binary64.le_iff, ha, hb, true_and]
  split
  · exact ⟨ha, by omega⟩
  · exact ⟨hb, by omega⟩

/-- The greater of two numbers stands at the greater of their places. -/
theorem place_max (ha : a.isNaN = false) (hb : b.isNaN = false) :
    (max a b).isNaN = false ∧ place (max a b) = max (place a) (place b) := by
  change (ite (a ≤ b) b a).isNaN = false ∧ place (ite (a ≤ b) b a) = _
  simp only [Binary64.le_iff, ha, hb, true_and]
  split
  · exact ⟨hb, by omega⟩
  · exact ⟨ha, by omega⟩

/-- The truth value of a number is the sign of its place. -/
theorem ofValue_eq (ha : a.isNaN = false) :
    Truth.ofValue a =
      if place a < 0 then .no else if 0 < place a then .yes else .unknown := by
  simp only [Truth.ofValue, Binary64.lt_zero_iff, Binary64.zero_lt_iff, ha, true_and]

end Values

namespace Connectives

/-- A computed value is a number exactly if those it is computed from are. -/
theorem preserve_isNaN : computed.Preserve anyOf fun a nan => a.isNaN = nan where
  and := by
    rintro a _ b _ rfl rfl
    exact isNaN_apply .min a b
  or := by
    rintro a _ b _ rfl rfl
    exact isNaN_apply .max a b
  not := by
    rintro a _ rfl
    exact Binary64.isNaN_neg a

/-- Numbers are computed as minimum, maximum and negation, up to the sign of zero. -/
theorem preserve_beq : computed.Preserve numeric fun a b => (a == b) = true where
  and := by
    intro a b a' b' h h'
    obtain ⟨ha, hb, hab⟩ := Binary64.beq_iff.1 h
    obtain ⟨ha', hb', hab'⟩ := Binary64.beq_iff.1 h'
    obtain ⟨hn, hp⟩ := place_min hb hb'
    refine Binary64.beq_iff.2 ⟨?_, hn, ?_⟩
    · exact (isNaN_apply .min a a').trans (Bool.or_eq_false_iff.2 ⟨ha, ha'⟩)
    · exact (place_min_apply ha ha').trans (by rw [hab, hab']; exact hp.symm)
  or := by
    intro a b a' b' h h'
    obtain ⟨ha, hb, hab⟩ := Binary64.beq_iff.1 h
    obtain ⟨ha', hb', hab'⟩ := Binary64.beq_iff.1 h'
    obtain ⟨hn, hp⟩ := place_max hb hb'
    refine Binary64.beq_iff.2 ⟨?_, hn, ?_⟩
    · exact (isNaN_apply .max a a').trans (Bool.or_eq_false_iff.2 ⟨ha, ha'⟩)
    · exact (place_max_apply ha ha').trans (by rw [hab, hab']; exact hp.symm)
  not := by
    intro a b h
    obtain ⟨ha, hb, hab⟩ := Binary64.beq_iff.1 h
    obtain ⟨hna, hpa⟩ := Binary64.place_neg ha
    obtain ⟨hnb, hpb⟩ := Binary64.place_neg hb
    exact Binary64.beq_iff.2 ⟨hna, hnb, hpa.trans ((congrArg Neg.neg hab).trans hpb.symm)⟩

/-- The truth value of what is computed from numbers follows strong Kleene logic. -/
theorem preserve_kleene :
    computed.Preserve Truth.kleene fun a t => a.isNaN = false ∧ Truth.ofValue a = t where
  and := by
    rintro a _ b _ ⟨ha, rfl⟩ ⟨hb, rfl⟩
    have hn : (Reducer.min.apply a b).isNaN = false := by
      rw [isNaN_apply, ha, hb, Bool.or_self]
    refine ⟨hn, ?_⟩
    change Truth.ofValue (Reducer.min.apply a b) = Truth.and _ _
    rw [ofValue_eq hn, ofValue_eq ha, ofValue_eq hb, place_min_apply ha hb]
    split_ifs <;> first | rfl | omega
  or := by
    rintro a _ b _ ⟨ha, rfl⟩ ⟨hb, rfl⟩
    have hn : (Reducer.max.apply a b).isNaN = false := by
      rw [isNaN_apply, ha, hb, Bool.or_self]
    refine ⟨hn, ?_⟩
    change Truth.ofValue (Reducer.max.apply a b) = Truth.or _ _
    rw [ofValue_eq hn, ofValue_eq ha, ofValue_eq hb, place_max_apply ha hb]
    split_ifs <;> first | rfl | omega
  not := by
    rintro a _ ⟨ha, rfl⟩
    obtain ⟨hn, hp⟩ := Binary64.place_neg ha
    refine ⟨hn, ?_⟩
    change Truth.ofValue (-a) = Truth.not _
    rw [ofValue_eq hn, ofValue_eq ha, hp]
    split_ifs <;> first | rfl | omega

end Connectives

/-! ### Values of detectors -/

/-- A computation that goes on after another one answers only if the first one does. -/
theorem exists_of_bind_eq_ok {ε α β : Type} {x : Except ε α} {k : α → Except ε β} {y : β}
    (h : (x >>= k) = .ok y) : ∃ a, x = .ok a ∧ k a = .ok y := by
  cases x with
  | error e => cases h
  | ok a => exact ⟨a, rfl, h⟩

namespace Detector

variable {ι κ S : Type} [Indicator ι S] {s : S}

/-- The failure of the first of several indicators that fails. -/
inductive FirstFailure (s : S) : List ι → EventError → Prop
  | here {i : ι} {rest : List ι} {e : EventError} (h : Indicator.g i s = .error e) :
    FirstFailure s (i :: rest) e
  | later {i : ι} {rest : List ι} {v : Float} {e : EventError} (h : Indicator.g i s = .ok v)
    (hrest : FirstFailure s rest e) : FirstFailure s (i :: rest) e

/-- Several indicators fail first in the first part of them or, if that has values, in the rest. -/
theorem firstFailure_append {is js : List ι} {e : EventError} (h : FirstFailure s (is ++ js) e) :
    FirstFailure s is e ∨ (∀ i ∈ is, ∃ v, Indicator.g i s = .ok v) ∧ FirstFailure s js e := by
  induction is with
  | nil => exact .inr ⟨nofun, h⟩
  | cons i is ih =>
    cases h with
    | here h => exact .inl (.here h)
    | later h hrest =>
      rcases ih hrest with hf | ⟨hok, hf⟩
      · exact .inl (.later h hf)
      · refine .inr ⟨?_, hf⟩
        rintro j (_ | ⟨_, hj⟩)
        · exact ⟨_, h⟩
        · exact hok j hj

/-- Of several indicators one fails first, or all have values. -/
theorem exists_firstFailure (s : S) (is : List ι) :
    (∃ e, FirstFailure s is e) ∨ ∀ i ∈ is, ∃ v, Indicator.g i s = .ok v := by
  induction is with
  | nil => exact .inr nofun
  | cons i is ih =>
    cases hg : Indicator.g i s with
    | error e => exact .inl ⟨e, .here hg⟩
    | ok v =>
      rcases ih with ⟨e, he⟩ | hok
      · exact .inl ⟨e, .later hg he⟩
      · right
        rintro j (_ | ⟨_, hj⟩)
        · exact ⟨v, hg⟩
        · exact hok j hj

/-- Values of indicators that have them. -/
theorem exists_leaf {is : List ι} (h : ∀ i ∈ is, ∃ v, Indicator.g i s = .ok v) :
    ∃ leaf : ι → Float, ∀ i ∈ is, Indicator.g i s = .ok (leaf i) := by
  refine ⟨fun i => match Indicator.g i s with | .ok v => v | .error _ => 0.0, fun i hi => ?_⟩
  obtain ⟨v, hv⟩ := h i hi
  simp only [hv]

/-- If the leaves have values, then several detectors compute their formulas. -/
private theorem exists_values_eq {leaf : ι → Float} {ds : List (Detector ι κ)}
    (h : ∀ d ∈ ds, ∃ w, d.g s = .ok w ∧ d.formula .computed leaf = some w) :
    ∃ ws, values ds s = .ok ws ∧ formulas .computed leaf ds = some ws ∧
      ws.length = ds.length := by
  induction ds with
  | nil => exact ⟨[], rfl, rfl, rfl⟩
  | cons d ds ih =>
    obtain ⟨w, hg, hw⟩ := h d List.mem_cons_self
    obtain ⟨ws, hgs, hws, hlen⟩ := ih fun d hd => h d (List.mem_cons_of_mem _ hd)
    refine ⟨w :: ws, ?_, ?_, by simp [hlen]⟩
    · rw [values, hg]
      simp only [hgs]
      rfl
    · simp [formulas, hw, hws]

/-- If its leaves have values, then a detector computes its formula. -/
theorem WellFormed.exists_g_eq {d : Detector ι κ} (hd : d.WellFormed) {leaf : ι → Float}
    (h : ∀ i ∈ d.leaves, Indicator.g i s = .ok (leaf i)) :
    ∃ w, d.g s = .ok w ∧ d.formula .computed leaf = some w := by
  induction hd with
  | atomic i =>
    refine ⟨leaf i, ?_, rfl⟩
    rw [g]
    exact h i List.mem_cons_self
  | @boolean r ds _ _ hne _ ih =>
    obtain ⟨ws, hgs, hws, hlen⟩ := exists_values_eq fun d hd =>
      ih d hd fun i hi => h i (mem_leavesAll.2 ⟨d, hd, hi⟩)
    cases ws with
    | nil => exact absurd (List.length_eq_zero_iff.1 hlen.symm) hne
    | cons w ws =>
      refine ⟨ws.foldl r.apply w, ?_, ?_⟩
      · rw [g, hgs]
        rfl
      · simp only [formula, hws, Option.bind_some, Connectives.join]
        cases r <;> rfl
  | negate _ ih =>
    obtain ⟨w, hg, hw⟩ := ih h
    refine ⟨-w, ?_, ?_⟩
    · rw [g, hg]
      rfl
    · rw [formula, hw]
      rfl

/-- Several detectors fail as the first failing leaf does. -/
private theorem values_eq_error {ds : List (Detector ι κ)} {e : EventError}
    (h : ∀ d ∈ ds, d.WellFormed ∧ (FirstFailure s d.leaves e → d.g s = .error e))
    (hf : FirstFailure s (leavesAll ds) e) : values ds s = .error e := by
  induction ds with
  | nil => cases hf
  | cons d ds ih =>
    obtain ⟨hd, hfail⟩ := h d List.mem_cons_self
    rcases firstFailure_append hf with hf | ⟨hok, hf⟩
    · rw [values, hfail hf]
      rfl
    -- the first detector has a value, and evaluation goes on
    · obtain ⟨leaf, hleaf⟩ := exists_leaf hok
      obtain ⟨w, hg, -⟩ := hd.exists_g_eq hleaf
      rw [values, hg]
      simp only [ih (fun d hd => h d (List.mem_cons_of_mem _ hd)) hf]
      rfl

/-- A detector fails as its first failing leaf does. -/
theorem WellFormed.g_eq_error {d : Detector ι κ} (hd : d.WellFormed) {e : EventError}
    (h : FirstFailure s d.leaves e) : d.g s = .error e := by
  induction hd with
  | atomic i =>
    rw [g]
    cases h with
    | here h => exact h
    | later _ h => cases h
  | boolean _ hds ih =>
    rw [g, values_eq_error (fun d hd => ⟨hds d hd, ih d hd⟩) h]
    rfl
  | negate _ ih =>
    rw [g, ih h]
    rfl

/-! ### Meaning -/

/-- The failure that comes first is one of the failures. -/
theorem FirstFailure.exists_mem {is : List ι} {e : EventError} (h : FirstFailure s is e) :
    ∃ i ∈ is, Indicator.g i s = .error e := by
  induction h with
  | here h => exact ⟨_, List.mem_cons_self, h⟩
  | later _ _ ih =>
    obtain ⟨i, hi, hg⟩ := ih
    exact ⟨i, List.mem_cons_of_mem _ hi, hg⟩

/-- A detector fails exactly with the error of its first failing leaf. -/
theorem WellFormed.g_eq_error_iff {d : Detector ι κ} (hd : d.WellFormed) {e : EventError} :
    d.g s = .error e ↔ FirstFailure s d.leaves e := by
  refine ⟨?_, hd.g_eq_error⟩
  intro h
  rcases exists_firstFailure s d.leaves with ⟨e', he'⟩ | hok
  · obtain rfl := Except.error.inj (h.symm.trans (hd.g_eq_error he'))
    exact he'
  -- without a failure the detector has a value
  · obtain ⟨leaf, hleaf⟩ := exists_leaf hok
    obtain ⟨w, hg, -⟩ := hd.exists_g_eq hleaf
    cases h.symm.trans hg

/-- Joining truth values by disjunction tells whether one of them is true. -/
private theorem join_anyOf (r : Reducer) {xs : List Bool} (hne : xs ≠ []) :
    Connectives.anyOf.join r xs = some (xs.any id) := by
  have hfold (xs : List Bool) (x : Bool) :
      xs.foldl (Connectives.anyOf.binary r) x = (x || xs.any id) := by
    induction xs generalizing x with
    | nil => simp
    | cons y ys ih =>
      rw [List.foldl_cons, ih, List.any_cons]
      cases r <;> exact Bool.or_assoc x y _
  cases xs with
  | nil => exact absurd rfl hne
  | cons x xs => exact congrArg some (hfold xs x)

/-- The values of several formulas with disjunction throughout. -/
private theorem formulas_anyOf {p : ι → Bool} {ds : List (Detector ι κ)}
    (h : ∀ d ∈ ds, d.formula .anyOf p = some (d.leaves.any p)) :
    formulas .anyOf p ds = some (ds.map fun d => d.leaves.any p) := by
  induction ds with
  | nil => rfl
  | cons d ds ih =>
    rw [formulas, h d List.mem_cons_self, ih fun d hd => h d (List.mem_cons_of_mem _ hd)]
    rfl

/-- With disjunction throughout, a formula tells whether some leaf has a property. -/
theorem WellFormed.formula_anyOf {d : Detector ι κ} (hd : d.WellFormed) (p : ι → Bool) :
    d.formula .anyOf p = some (d.leaves.any p) := by
  induction hd with
  | atomic i => simp [formula, leaves]
  | @boolean r ds _ _ hne _ ih =>
    rw [formula, formulas_anyOf ih, Option.bind_some, join_anyOf r (by simpa using hne), leaves]
    rw [leavesAll_eq, List.any_flatMap, List.any_map]
    rfl
  | negate _ ih =>
    rw [formula, ih]
    rfl

/-- The meaning of a detector at a state.

* It fails exactly if some leaf does, and then with the error of the first leaf that does.
* Otherwise it has a value, which is a number exactly if the values of all leaves are.
* A number is, up to the sign of zero, the value of the formula with conjunction as minimum and
  disjunction as maximum, and its sign is the truth value of the formula in strong Kleene logic. -/
theorem Built.g_meaning {d : Detector ι κ} (hd : d.Built) (s : S) :
    ((∃ e, d.g s = .error e) ↔ ∃ i ∈ d.leaves, ∃ e, Indicator.g i s = .error e) ∧
    (∀ e, d.g s = .error e ↔ FirstFailure s d.leaves e) ∧
    ∀ leaf : ι → Float, (∀ i ∈ d.leaves, Indicator.g i s = .ok (leaf i)) →
      ∃ w, d.g s = .ok w ∧
        (w.isNaN = true ↔ ∃ i ∈ d.leaves, (leaf i).isNaN = true) ∧
        ((∀ i ∈ d.leaves, (leaf i).isNaN = false) →
          (∃ x, d.formula .numeric leaf = some x ∧ (w == x) = true) ∧
          d.formula Truth.kleene (fun i => Truth.ofValue (leaf i)) =
            some (Truth.ofValue w)) := by
  have hwf := hd.wellFormed
  refine ⟨⟨?_, ?_⟩, fun e => hwf.g_eq_error_iff, ?_⟩
  · rintro ⟨e, h⟩
    obtain ⟨i, hi, hg⟩ := (hwf.g_eq_error_iff.1 h).exists_mem
    exact ⟨i, hi, e, hg⟩
  · rintro ⟨i, hi, e, hg⟩
    rcases exists_firstFailure s d.leaves with ⟨e', he'⟩ | hok
    · exact ⟨e', hwf.g_eq_error he'⟩
    · obtain ⟨v, hv⟩ := hok i hi
      cases hg.symm.trans hv
  intro leaf hleaf
  -- the value is that of the formula as computed, which is related to three other formulas
  obtain ⟨w, hg, hw⟩ := hwf.exists_g_eq hleaf
  refine ⟨w, hg, ?_, fun hnum => ⟨?_, ?_⟩⟩
  · obtain ⟨x, nan, hx, hnan, rfl⟩ := hwf.formula_rel Connectives.preserve_isNaN leaf
      (fun i => (leaf i).isNaN) fun i _ => rfl
    obtain rfl := Option.some.inj (hw.symm.trans hx)
    rw [hwf.formula_anyOf] at hnan
    rw [← Option.some.inj hnan, List.any_eq_true]
  · obtain ⟨x, y, hx, hy, hxy⟩ := hwf.formula_rel Connectives.preserve_beq leaf leaf
      fun i hi => Binary64.beq_iff.2 ⟨hnum i hi, hnum i hi, rfl⟩
    obtain rfl := Option.some.inj (hw.symm.trans hx)
    exact ⟨y, hy, hxy⟩
  · obtain ⟨x, t, hx, ht, -, rfl⟩ := hwf.formula_rel Connectives.preserve_kleene leaf
      (fun i => Truth.ofValue (leaf i)) fun i hi => ⟨hnum i hi, rfl⟩
    obtain rfl := Option.some.inj (hw.symm.trans hx)
    exact ht

/-- Positive while a component lies between two levels. -/
def window : Detector ComponentThreshold Empty :=
  .boolean .min [ofIndicator ⟨0, 0.5⟩, (ofIndicator ⟨0, 1.5⟩).not] .standard .continueOnEvent

theorem built_window : window.Built := by
  have h : compose .min [ofIndicator ⟨0, 0.5⟩, (ofIndicator ⟨0, 1.5⟩).not] = .ok window := rfl
  refine .compose ?_ h
  rintro d (_ | ⟨_, _ | ⟨_, hd⟩⟩)
  · exact .atomic _ _ _
  · exact .not (.atomic _ _ _)
  · cases hd

/-- Between the levels the window is true. -/
theorem g_meaning_window :
    ∃ w, window.g (⟨⟨0.0⟩, [1.0]⟩ : TrajectoryState) = .ok w ∧
      (∃ x, window.formula .numeric (fun i => 1.0 - i.level) = some x ∧ (w == x) = true) ∧
      window.formula Truth.kleene (fun i => Truth.ofValue (1.0 - i.level)) =
        some (Truth.ofValue w) := by
  have hmem : ∀ i ∈ window.leaves, i = ⟨0, 0.5⟩ ∨ i = ⟨0, 1.5⟩ := by
    simp [window, leaves, leavesAll, ofIndicator, Detector.not]
  have hleaf : ∀ i ∈ window.leaves,
      Indicator.g i (⟨⟨0.0⟩, [1.0]⟩ : TrajectoryState) = .ok (1.0 - i.level) := by
    intro i hi
    rcases hmem i hi with rfl | rfl <;> rfl
  obtain ⟨w, hg, -, hmeaning⟩ := (built_window.g_meaning _).2.2 _ hleaf
  refine ⟨w, hg, hmeaning fun i hi => ?_⟩
  rcases hmem i hi with rfl | rfl <;> rfl

end Detector

end TrajectoryEvents
