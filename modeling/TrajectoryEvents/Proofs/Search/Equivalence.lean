import TrajectoryEvents.Proofs.Detector.Meaning
import TrajectoryEvents.Proofs.Detector.NormalForm
import TrajectoryEvents.Proofs.Search.Exactness
import TrajectoryEvents.Proofs.Search.Simulation

/-!
# Normal forms are searched alike

A detector and its normal form agree at every state, except that a zero may have another sign. No
search can tell the difference, so that both are searched alike.

## Main definitions

* `Connectives.reading`: the connectives in terms of places, where a NaN takes over.

## Main results

* `Detector.WellFormed.related_normalForm`: a detector and its normal form have the same values.
* `Detector.Quiet.prepared_normalForm`: a search prepares a normal form by preparing the detector.
* `Detector.Built.locate_normalForm`: a detector and its normal form are searched alike.
-/

namespace TrajectoryEvents

/-! ### Readings of values -/

/-- The place of a number. A NaN has none. -/
def reading (v : Float) : Option ℤ := if v.isNaN then none else some (Binary64.place v)

theorem reading_of_isNaN {v : Float} (h : v.isNaN = true) : reading v = none := if_pos h

theorem reading_of_number {v : Float} (h : v.isNaN = false) :
    reading v = some (Binary64.place v) := by
  rw [reading, h]
  rfl

/-- Values are the same exactly if they have the same reading. -/
theorem sameValue_iff_reading {v w : Float} : SameValue v w ↔ reading v = reading w := by
  rw [SameValue, Binary64.beq_iff]
  cases hv : v.isNaN <;> cases hw : w.isNaN
  · rw [reading_of_number hv, reading_of_number hw]
    simp
  · rw [reading_of_number hv, reading_of_isNaN hw]
    simp
  · rw [reading_of_isNaN hv, reading_of_number hw]
    simp
  · simp only [reading_of_isNaN hv, reading_of_isNaN hw, and_self, true_or]

/-- The reading of what a reducer makes of two values. -/
theorem reading_apply {r : Reducer} {op : ℤ → ℤ → ℤ}
    (hop : ∀ {a b : Float}, a.isNaN = false → b.isNaN = false →
      Binary64.place (r.apply a b) = op (Binary64.place a) (Binary64.place b)) (a b : Float) :
    reading (r.apply a b) = Option.map₂ op (reading a) (reading b) := by
  have hn := isNaN_apply r a b
  cases ha : a.isNaN with
  | true =>
    rw [ha, Bool.true_or] at hn
    rw [reading_of_isNaN hn, reading_of_isNaN ha]
    rfl
  | false =>
    cases hb : b.isNaN with
    | true =>
      rw [hb, Bool.or_true] at hn
      rw [reading_of_isNaN hn, reading_of_isNaN hb, Option.map₂_none_right]
    | false =>
      rw [ha, hb, Bool.or_self] at hn
      rw [reading_of_number hn, reading_of_number ha, reading_of_number hb, hop ha hb]
      rfl

/-- The reading of the opposite of a value. -/
theorem reading_neg (a : Float) : reading (-a) = (reading a).map Neg.neg := by
  cases ha : a.isNaN with
  | true => rw [reading_of_isNaN ha, reading_of_isNaN ((Binary64.isNaN_neg a).trans ha)]; rfl
  | false =>
    obtain ⟨hn, hp⟩ := Binary64.place_neg ha
    rw [reading_of_number ha, reading_of_number hn, hp]
    rfl

namespace Connectives

/-- Conjunction, disjunction and negation of readings. One without a number makes the result one. -/
def reading : Connectives (Option ℤ) := ⟨Option.map₂ min, Option.map₂ max, Option.map Neg.neg⟩

/-- Readings have the laws that normal forms rely on. -/
theorem lawful_reading : reading.Lawful where
  not_not a := by
    simp only [reading, Option.map_map]
    exact (congrArg (Option.map · a) (funext neg_neg)).trans Option.map_id'
  not_and a b := Option.map_map₂_distrib fun x y => by omega
  not_or a b := Option.map_map₂_distrib fun x y => by omega
  and_assoc a b d := Option.map₂_assoc min_assoc
  or_assoc a b d := Option.map₂_assoc max_assoc

/-- Computed values have the readings that are computed of readings. -/
theorem preserve_reading :
    computed.Preserve reading fun v x => TrajectoryEvents.reading v = x where
  and := by
    rintro a _ b _ rfl rfl
    exact reading_apply place_min_apply a b
  or := by
    rintro a _ b _ rfl rfl
    exact reading_apply place_max_apply a b
  not := by
    rintro a _ rfl
    exact reading_neg a

end Connectives

namespace Detector

variable {ι κ S τ : Type} [Indicator ι S]

/-- A detector and its normal form have the same values. -/
theorem WellFormed.related_normalForm {d : Detector ι κ} (hd : d.WellFormed) (s : S) :
    Related SameValue (d.g s) (d.normalForm.g s) := by
  have hn : d.normalForm.WellFormed := hd.normalize false
  have hleaves : d.normalForm.leaves = d.leaves := leaves_normalize false d
  rcases exists_firstFailure s d.leaves with ⟨e, he⟩ | hok
  -- both fail as the first failing leaf does
  · rw [hd.g_eq_error he, hn.g_eq_error (hleaves ▸ he)]
    exact .error e
  · obtain ⟨leaf, hleaf⟩ := exists_leaf hok
    obtain ⟨v, hv, hformula⟩ := hd.exists_g_eq hleaf
    obtain ⟨w, hw, hformula'⟩ := hn.exists_g_eq (hleaves ▸ hleaf)
    rw [hv, hw]
    refine .ok (sameValue_iff_reading.2 ?_)
    -- the readings of both values are that of one formula
    obtain ⟨x, y, hx, hy, rfl⟩ := hd.formula_rel Connectives.preserve_reading leaf
      (fun i => reading (leaf i)) fun i _ => rfl
    obtain ⟨x', y', hx', hy', rfl⟩ := hn.formula_rel Connectives.preserve_reading leaf
      (fun i => reading (leaf i)) fun i _ => rfl
    obtain rfl := Option.some.inj (hformula.symm.trans hx)
    obtain rfl := Option.some.inj (hformula'.symm.trans hx')
    rw [hd.formula_normalForm Connectives.lawful_reading, hy] at hy'
    exact Option.some.inj hy'

variable [Snapshot S] [CustomHandler κ S τ] [Initializable ι S τ]

section Locate

variable {trajectory : Epoch → StateM τ S} {f : Epoch → S}
  (hf : ∀ t m, (trajectory t m).1 = f t)
include hf

/-- A search prepares a normal form by preparing the detector. -/
theorem Quiet.prepared_normalForm {d : Detector ι κ} (hd : d.Quiet) (st : Settings)
    (start finish : Epoch) (m : Memory τ) :
    (d.normalForm.withSettings st .continueOnEvent).prepared trajectory start finish m =
      (d.prepared trajectory start finish m).normalForm.withSettings st .continueOnEvent := by
  by_cases h : finish ≤ start
  · rw [prepared_of_le _ h, prepared_of_le _ h]
  · have hn : d.normalForm.Quiet := hd.normalize false
    have hinit := d.normalForm.run_init_withSettings st (f start) finish
      (Memory.withCustom (trajectory start) m).2
    rw [hn.handler_eq] at hinit
    rw [prepared_eq _ hf h, prepared_eq _ hf h, hinit, normalForm, hd.run_init_normalize,
      normalForm]

end Locate

/-- Normal forms cannot be told apart by a search. The normal form of a detector that is built can
be built as well. It is in normal form, and its leaves are those of the detector in the same order.

* At every state both fail with the same error, or both have values that are NaN, or both have
  values that are equal.
* If no handler is attached to the detector but the one that always continues, inner handlers
  included, then the search of the normal form, rebuilt with the settings of the detector, answers
  as the search of the detector does, along every trajectory that is a function of the epoch. -/
theorem Built.locate_normalForm {d : Detector ι κ} (hd : d.Built) :
    (d.normalForm.Built ∧ d.normalForm.IsNormal ∧ d.normalForm.leaves = d.leaves) ∧
    (∀ s : S, Related SameValue (d.g s) (d.normalForm.g s)) ∧
    ∀ (trajectory : Epoch → StateM τ S) (f : Epoch → S), (∀ t m, (trajectory t m).1 = f t) →
      d.Quiet → ∀ (start finish : Epoch) (m : Memory τ),
        (((d.normalForm.withSettings d.settings .continueOnEvent).locate trajectory start
            finish).run m).1.1 =
          ((d.locate trajectory start finish).run m).1.1 := by
  have hwf := hd.wellFormed
  refine ⟨⟨(hwf.normalize false).built, isNormal_normalize false d, leaves_normalize false d⟩,
    hwf.related_normalForm, ?_⟩
  intro trajectory f hf hquiet start finish m
  have hhandler : (d.normalForm.withSettings d.settings .continueOnEvent).handler =
      .continueOnEvent := handler_withSettings _ _ _
  have hsettings : (d.normalForm.withSettings d.settings .continueOnEvent).settings =
      d.settings := settings_withSettings _ _ _
  refine (locate_simulates hf simulation_sameValue hquiet.handler_eq hhandler hsettings m
    ?_).trans ?_
  · intro s x hx
    by_cases h : finish ≤ start
    · rw [calls_of_le _ _ h] at hx
      cases hx
    -- the search asks for values of the prepared detector, which is well-formed as well
    obtain ⟨t, rfl, rfl⟩ := (d.searches_locate hf h m).observes _ hx
    rw [hquiet.prepared_normalForm hf, g_withSettings, d.prepared_eq hf h]
    exact (hwf.init _ _ _).related_normalForm _
  · rw [Occurrence.map_turned_id]
    cases ((d.locate trajectory start finish).run m).1.1 <;> rfl

-- the negation of a conjunction is a disjunction of negations, and a double negation is none
example : window.not.normalForm =
    .boolean .max [(ofIndicator ⟨0, 0.5⟩).not, ofIndicator ⟨0, 1.5⟩] .standard .continueOnEvent :=
  rfl

theorem built_band : band.Built := by
  have h : compose .min [raised, (Detector.atomic ⟨0, 1.5⟩ ⟨1.0, 0.5, 100⟩ .continueOnEvent).not] =
    .ok band := rfl
  refine .compose ?_ h
  rintro d (_ | ⟨_, _ | ⟨_, hd⟩⟩)
  · exact .atomic _ _ _
  · exact .not (.atomic _ _ _)
  · cases hd

set_option maxRecDepth 1024 in
/-- The negation of the band falls where the component enters the band, and rises where it leaves
it. -/
theorem run_locate_not_band :
    (band.not.locate (fun t => (pure (pulse t) : StateM Unit _)) ⟨0.0⟩ ⟨2.0⟩).run ⟨.empty, ()⟩ =
      ((.ok [⟨⟨0.5⟩, pulse ⟨0.5⟩, false, .proceed, none⟩,
        ⟨⟨2.0⟩, pulse ⟨2.0⟩, true, .proceed, none⟩], band.not), ⟨.empty, ()⟩) :=
  run_locate_eq band.not pulse (by decide) rfl samplesAfter_pulse

/-- The normal form of this negation is searched alike. -/
theorem locate_normalForm_band :
    band.not.normalForm.IsNormal ∧
    Related SameValue (band.not.g (pulse ⟨1.0⟩)) (band.not.normalForm.g (pulse ⟨1.0⟩)) ∧
    ((band.not.locate (fun t => (pure (pulse t) : StateM Unit _)) ⟨0.0⟩ ⟨2.0⟩).run
        ⟨.empty, ()⟩).1.1 =
      .ok [⟨⟨0.5⟩, pulse ⟨0.5⟩, false, .proceed, none⟩,
        ⟨⟨2.0⟩, pulse ⟨2.0⟩, true, .proceed, none⟩] ∧
    (((band.not.normalForm.withSettings ⟨1.0, 0.5, 100⟩ .continueOnEvent).locate
        (fun t => (pure (pulse t) : StateM Unit _)) ⟨0.0⟩ ⟨2.0⟩).run ⟨.empty, ()⟩).1.1 =
      .ok [⟨⟨0.5⟩, pulse ⟨0.5⟩, false, .proceed, none⟩,
        ⟨⟨2.0⟩, pulse ⟨2.0⟩, true, .proceed, none⟩] := by
  have hf : ∀ t m, ((pure (pulse t) : StateM Unit _) m).1 = pulse t := fun _ _ => rfl
  have hquiet : band.not.Quiet := by
    refine .negate (.boolean ?_)
    rintro d (_ | ⟨_, _ | ⟨_, ⟨⟩⟩⟩)
    · exact .atomic _ _
    · exact .negate (.atomic _ _)
  obtain ⟨⟨-, hnormal, -⟩, hvalues, hlocate⟩ := built_band.not.locate_normalForm
    (S := TrajectoryState) (τ := Unit)
  have hrun := congrArg (fun r => r.1.1) run_locate_not_band
  exact ⟨hnormal, hvalues _, hrun, (hlocate _ _ hf hquiet _ _ _).trans hrun⟩

end Detector

end TrajectoryEvents
