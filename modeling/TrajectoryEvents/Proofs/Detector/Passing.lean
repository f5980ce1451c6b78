import Mathlib.Algebra.Group.Nat.Even
import TrajectoryEvents.Proofs.Detector.Meaning

/-!
# Passing zero

Where the value of a detector passes zero between two states, the value of one of its leaves does.
A conjunction that rises above zero lets all of its operands be there, one of which was below; a
disjunction that rises lets one of them be there, and all were below. Each negation on the way to
the leaf turns the direction.

## Main definitions

* `Passes`: a value that passes zero in a given direction.
* `Detector.HasLeaf`: a leaf, with the number of negations above it.
* `Detector.Numbers`: a detector without a NaN at its leaves.
* `Detector.LeafPasses`: a detector with a leaf that passes zero.

## Main results

* `foldl_apply_spec`: a reducer chooses one of the values, which leads all of them.
* `Detector.Numbers.isNaN_g`: a detector without a NaN at its leaves has none.
* `Detector.leafPasses_of_passes`: where a detector passes zero, one of its leaves does.
-/

namespace TrajectoryEvents

open Binary64

/-! ### Values -/

/-- A value that passes zero, from strictly below or from strictly above. It may end at zero. -/
def Passes (up : Bool) (v w : Float) : Prop :=
  if up then v < 0.0 ∧ 0.0 ≤ w else 0.0 < v ∧ w ≤ 0.0

instance (up : Bool) (v w : Float) : Decidable (Passes up v w) :=
  inferInstanceAs (Decidable (ite _ _ _))

variable {up : Bool} {a b v w : Float}

theorem passes_true : Passes true v w ↔
    (v.isNaN = false ∧ place v < 0) ∧ w.isNaN = false ∧ 0 ≤ place w := by
  rw [← lt_zero_iff, ← zero_le_iff]
  rfl

theorem passes_false : Passes false v w ↔
    (v.isNaN = false ∧ 0 < place v) ∧ w.isNaN = false ∧ place w ≤ 0 := by
  rw [← zero_lt_iff, ← le_zero_iff]
  rfl

/-- The opposite of a value passes zero in the opposite direction. -/
theorem passes_neg (hv : v.isNaN = false) (hw : w.isNaN = false) :
    Passes up (-v) (-w) ↔ Passes (!up) v w := by
  obtain ⟨hnv, hpv⟩ := place_neg hv
  obtain ⟨hnw, hpw⟩ := place_neg hw
  cases up
  · simp only [Bool.not_false, passes_true, passes_false, hnv, hpv, hnw, hpw, hv, hw, true_and]
    omega
  · simp only [Bool.not_true, passes_true, passes_false, hnv, hpv, hnw, hpw, hv, hw, true_and]
    omega

/-- A place that a reducer prefers to another one, unless they are the same. -/
def Reducer.Leads (r : Reducer) (m n : ℤ) : Prop :=
  match r with
  | .min => m ≤ n
  | .max => n ≤ m

namespace Reducer.Leads

variable {r : Reducer} {k m n : ℤ}

theorem refl (r : Reducer) (m : ℤ) : r.Leads m m := by
  cases r <;> exact le_rfl

theorem trans (h : r.Leads k m) (h' : r.Leads m n) : r.Leads k n := by
  cases r with
  | min => exact le_trans h h'
  | max => exact le_trans h' h

end Reducer.Leads

/-- A reducer chooses one of two numbers, which leads both. -/
theorem apply_spec (r : Reducer) (ha : a.isNaN = false) (hb : b.isNaN = false) :
    (r.apply a b = a ∨ r.apply a b = b) ∧
      r.Leads (place (r.apply a b)) (place a) ∧ r.Leads (place (r.apply a b)) (place b) := by
  constructor
  · cases r <;> simp only [Reducer.apply, ha, hb, Bool.or_self, Bool.false_eq_true, if_false] <;>
      split <;> simp
  · cases r with
    | min =>
      rw [place_min_apply ha hb]
      exact ⟨min_le_left _ _, min_le_right _ _⟩
    | max =>
      rw [place_max_apply ha hb]
      exact ⟨le_max_left _ _, le_max_right _ _⟩

/-- A reducer chooses one of several numbers, which leads all of them. -/
theorem foldl_apply_spec (r : Reducer) {vs : List Float}
    (h : ∀ x ∈ v :: vs, x.isNaN = false) :
    vs.foldl r.apply v ∈ v :: vs ∧
      ∀ x ∈ v :: vs, r.Leads (place (vs.foldl r.apply v)) (place x) := by
  induction vs generalizing v with
  | nil =>
    refine ⟨List.mem_cons_self, ?_⟩
    rintro x (_ | ⟨_, ⟨⟩⟩)
    exact .refl r _
  | cons w vs ih =>
    have hv := h v List.mem_cons_self
    have hw := h w (List.mem_cons_of_mem _ List.mem_cons_self)
    obtain ⟨hchoice, hleadv, hleadw⟩ := apply_spec r hv hw
    -- the choice between the first two numbers takes their place
    have hnum : ∀ x ∈ r.apply v w :: vs, x.isNaN = false := by
      rintro x (_ | ⟨_, hx⟩)
      · rw [isNaN_apply, hv, hw, Bool.or_self]
      · exact h x (List.mem_cons_of_mem _ (List.mem_cons_of_mem _ hx))
    obtain ⟨hmem, hlead⟩ := ih hnum
    have hhead := hlead _ List.mem_cons_self
    refine ⟨?_, ?_⟩
    · rw [List.foldl_cons]
      rcases List.mem_cons.1 hmem with heq | hmem
      · rw [heq]
        rcases hchoice with hc | hc <;> simp [hc]
      · exact List.mem_cons_of_mem _ (List.mem_cons_of_mem _ hmem)
    · rintro x (_ | ⟨_, _ | ⟨_, hx⟩⟩)
      · exact hhead.trans hleadv
      · exact hhead.trans hleadw
      · exact hlead x (List.mem_cons_of_mem _ hx)

namespace Detector

variable {ι κ S : Type} [Indicator ι S] {s s' : S}

/-! ### Values of detectors -/

/-- The values of several detectors are those of each. -/
theorem values_eq_ok {ds : List (Detector ι κ)} {vs : List Float} (h : values ds s = .ok vs) :
    (∀ d ∈ ds, ∃ v ∈ vs, d.g s = .ok v) ∧ ∀ v ∈ vs, ∃ d ∈ ds, d.g s = .ok v := by
  induction ds generalizing vs with
  | nil =>
    obtain rfl := Except.ok.inj h
    exact ⟨nofun, nofun⟩
  | cons d ds ih =>
    rw [values] at h
    obtain ⟨v, hd, h⟩ := exists_of_bind_eq_ok h
    obtain ⟨vs, hds, h⟩ := exists_of_bind_eq_ok h
    obtain rfl := Except.ok.inj h
    obtain ⟨hvalue, hoperand⟩ := ih hds
    constructor
    · rintro d' (_ | ⟨_, hd'⟩)
      · exact ⟨v, List.mem_cons_self, hd⟩
      · obtain ⟨v', hv', hg⟩ := hvalue d' hd'
        exact ⟨v', List.mem_cons_of_mem _ hv', hg⟩
    · rintro v' (_ | ⟨_, hv'⟩)
      · exact ⟨d, List.mem_cons_self, hd⟩
      · obtain ⟨d', hd', hg⟩ := hoperand v' hv'
        exact ⟨d', List.mem_cons_of_mem _ hd', hg⟩

/-- The value of a composite is chosen from the values of its operands. -/
theorem g_boolean_eq_ok {r : Reducer} {ds : List (Detector ι κ)} {st : Settings} {h : Handler κ}
    {v : Float} (hg : (Detector.boolean r ds st h).g s = .ok v) :
    ∃ x xs, values ds s = .ok (x :: xs) ∧ v = xs.foldl r.apply x := by
  rw [g] at hg
  obtain ⟨vs, hvs, hg⟩ := exists_of_bind_eq_ok hg
  cases vs with
  -- a composite of no operands has no value
  | nil => cases hg
  | cons x xs => exact ⟨x, xs, hvs, (Except.ok.inj hg).symm⟩

/-- The value of a negation is the opposite of a value. -/
theorem g_negate_eq_ok {d : Detector ι κ} {st : Settings} {h : Handler κ} {v : Float}
    (hg : (Detector.negate d st h).g s = .ok v) : ∃ x, d.g s = .ok x ∧ v = -x := by
  rw [g] at hg
  obtain ⟨x, hx, hg⟩ := exists_of_bind_eq_ok hg
  exact ⟨x, hx, (Except.ok.inj hg).symm⟩

/-- The leaves of a detector have no NaN at a state. -/
def Numbers (d : Detector ι κ) (s : S) : Prop :=
  ∀ i ∈ d.leaves, ∀ x, Indicator.g i s = .ok x → x.isNaN = false

/-- Operands have no NaN where their composite has none. -/
theorem Numbers.operand {r : Reducer} {ds : List (Detector ι κ)} {st : Settings} {h : Handler κ}
    (hn : (Detector.boolean r ds st h).Numbers s) {d : Detector ι κ} (hd : d ∈ ds) :
    d.Numbers s :=
  fun i hi => hn i (mem_leavesAll.2 ⟨d, hd, hi⟩)

/-- A detector without a NaN at its leaves has none. -/
theorem Numbers.isNaN_g {d : Detector ι κ} (hn : d.Numbers s) {v : Float} (hg : d.g s = .ok v) :
    v.isNaN = false := by
  induction d generalizing v with
  | atomic i st h => exact hn i List.mem_cons_self v hg
  | boolean r ds st h ih =>
    obtain ⟨x, xs, hvalues, rfl⟩ := g_boolean_eq_ok hg
    have hnum : ∀ y ∈ x :: xs, y.isNaN = false := by
      intro y hy
      obtain ⟨d, hd, hg⟩ := (values_eq_ok hvalues).2 y hy
      exact ih d hd (hn.operand hd) hg
    -- the value is that of one of the operands
    exact hnum _ (foldl_apply_spec r hnum).1
  | negate d st h ih =>
    obtain ⟨x, hx, rfl⟩ := g_negate_eq_ok hg
    rw [Binary64.isNaN_neg]
    exact ih hn hx

/-- Nor do its operands. -/
theorem Numbers.isNaN_values {r : Reducer} {ds : List (Detector ι κ)} {st : Settings}
    {h : Handler κ} (hn : (Detector.boolean r ds st h).Numbers s) {vs : List Float}
    (hvs : values ds s = .ok vs) : ∀ v ∈ vs, v.isNaN = false := by
  intro v hv
  obtain ⟨d, hd, hg⟩ := (values_eq_ok hvs).2 v hv
  exact (hn.operand hd).isNaN_g hg

/-! ### Leaves -/

/-- A leaf of a detector, with the number of negations above it. -/
inductive HasLeaf : Detector ι κ → ℕ → ι → Prop
  | atomic (i : ι) (st : Settings) (h : Handler κ) : HasLeaf (.atomic i st h) 0 i
  | boolean {r : Reducer} {ds : List (Detector ι κ)} {st : Settings} {h : Handler κ}
    {d : Detector ι κ} {n : ℕ} {i : ι} (hd : d ∈ ds) (hleaf : HasLeaf d n i) :
    HasLeaf (.boolean r ds st h) n i
  | negate {d : Detector ι κ} {st : Settings} {h : Handler κ} {n : ℕ} {i : ι}
    (hleaf : HasLeaf d n i) : HasLeaf (.negate d st h) (n + 1) i

/-- A leaf of the detector passes zero between two states: in the given direction if there is an
even number of negations above it, and in the other one if there is an odd number. -/
def LeafPasses (d : Detector ι κ) (up : Bool) (s s' : S) : Prop :=
  ∃ n i v w, d.HasLeaf n i ∧ Indicator.g i s = .ok v ∧ Indicator.g i s' = .ok w ∧
    Passes (if Even n then up else !up) v w

/-- Where a composite passes zero, one of its operands does. -/
private theorem exists_operand_passes {r : Reducer} {ds : List (Detector ι κ)} {v w : Float}
    {vs ws : List Float} (hvs : values ds s = .ok (v :: vs)) (hws : values ds s' = .ok (w :: ws))
    (hnv : ∀ x ∈ v :: vs, x.isNaN = false) (hnw : ∀ x ∈ w :: ws, x.isNaN = false) {up : Bool}
    (h : Passes up (vs.foldl r.apply v) (ws.foldl r.apply w)) :
    ∃ d ∈ ds, ∃ x y, d.g s = .ok x ∧ d.g s' = .ok y ∧ Passes up x y := by
  obtain ⟨hv, hleadv⟩ := foldl_apply_spec r hnv
  obtain ⟨hw, hleadw⟩ := foldl_apply_spec r hnw
  -- the operand that is chosen before, or the one that is chosen after
  obtain ⟨d, hd, hdv⟩ := (values_eq_ok hvs).2 _ hv
  obtain ⟨y, hy, hdy⟩ := (values_eq_ok hws).1 d hd
  obtain ⟨d', hd', hdw⟩ := (values_eq_ok hws).2 _ hw
  obtain ⟨x, hx, hdx⟩ := (values_eq_ok hvs).1 d' hd'
  have hlead := hleadw y hy
  have hlead' := hleadv x hx
  cases r <;> cases up
  · rw [passes_false] at h
    exact ⟨d', hd', x, _, hdx, hdw, passes_false.2 ⟨⟨hnv x hx, h.1.2.trans_le hlead'⟩, h.2⟩⟩
  · rw [passes_true] at h
    exact ⟨d, hd, _, y, hdv, hdy, passes_true.2 ⟨h.1, hnw y hy, h.2.2.trans hlead⟩⟩
  · rw [passes_false] at h
    exact ⟨d, hd, _, y, hdv, hdy, passes_false.2 ⟨h.1, hnw y hy, le_trans hlead h.2.2⟩⟩
  · rw [passes_true] at h
    exact ⟨d', hd', x, _, hdx, hdw, passes_true.2 ⟨⟨hnv x hx, hlead'.trans_lt h.1.2⟩, h.2⟩⟩

/-- Where a detector passes zero, one of its leaves does. -/
theorem leafPasses_of_passes {d : Detector ι κ} (hs : d.Numbers s) (hs' : d.Numbers s') {up : Bool}
    {v w : Float} (hv : d.g s = .ok v) (hw : d.g s' = .ok w) (h : Passes up v w) :
    d.LeafPasses up s s' := by
  induction d generalizing up v w with
  | atomic i st hd => exact ⟨0, i, v, w, .atomic i st hd, hv, hw, h⟩
  | boolean r ds st hd ih =>
    obtain ⟨x, xs, hxs, rfl⟩ := g_boolean_eq_ok hv
    obtain ⟨y, ys, hys, rfl⟩ := g_boolean_eq_ok hw
    obtain ⟨d, hd, v, w, hv, hw, hpass⟩ :=
      exists_operand_passes hxs hys (hs.isNaN_values hxs) (hs'.isNaN_values hys) h
    obtain ⟨n, i, a, b, hleaf, ha, hb, hpass⟩ :=
      ih d hd (hs.operand hd) (hs'.operand hd) hv hw hpass
    exact ⟨n, i, a, b, .boolean hd hleaf, ha, hb, hpass⟩
  | negate d st hd ih =>
    obtain ⟨x, hx, rfl⟩ := g_negate_eq_ok hv
    obtain ⟨y, hy, rfl⟩ := g_negate_eq_ok hw
    have hn : d.Numbers s := hs
    have hn' : d.Numbers s' := hs'
    rw [passes_neg (hn.isNaN_g hx) (hn'.isNaN_g hy)] at h
    -- the negation turns the direction once more
    obtain ⟨n, i, a, b, hleaf, ha, hb, hpass⟩ := ih hn hn' hx hy h
    refine ⟨n + 1, i, a, b, .negate hleaf, ha, hb, ?_⟩
    by_cases heven : Even n
    · simpa [Nat.even_add_one, heven] using hpass
    · simpa [Nat.even_add_one, heven] using hpass

end Detector

end TrajectoryEvents
