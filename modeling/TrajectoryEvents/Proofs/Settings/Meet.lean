import Mathlib.Order.Bounds.Basic
import TrajectoryEvents.Detector.Basic
import TrajectoryEvents.Proofs.Binary64.Arithmetic

/-!
# The settings of a composite

A composite searches with the elementwise minimum of the settings of its operands. Comparisons with
NaN fail, so that the lesser of two durations is a minimum of them only because valid settings have
no NaN.

## Main definitions

* `Settings.IsElementwiseMin`: the elementwise minimum of several settings.

## Main results

* `Settings.isElementwiseMin_mostStringent`: the most stringent settings are that minimum.
* `Settings.IsElementwiseMin.valid`: they are valid, though no operand may have all three of them.
* `Settings.IsElementwiseMin.flatMap`: groups of settings can be met first.
* `Settings.IsElementwiseMin.unique`: neither the order of the settings nor repetitions matter.
* `Detector.exists_compose_eq`: a composite of at least one operand searches with them.
-/

namespace TrajectoryEvents

namespace Settings

open Binary64

/-- Settings that take every component from one of several, and that no component of these falls
below. -/
structure IsElementwiseMin (operands : List Settings) (s : Settings) : Prop where
  maxCheckInterval : IsLeast (Settings.maxCheckInterval '' {t | t ∈ operands}) s.maxCheckInterval
  threshold : IsLeast (Settings.threshold '' {t | t ∈ operands}) s.threshold
  maxIterationCount :
    IsLeast (Settings.maxIterationCount '' {t | t ∈ operands}) s.maxIterationCount

/-! ### Two settings -/

/-- The lesser of two durations is the least of them. -/
theorem isLeast_lesser {a b : Float} (ha : IsUsable a) (hb : IsUsable b) :
    IsLeast {a, b} (lesser a b) := by
  have han := (isFinite_iff.1 ha.1).1
  have hbn := (isFinite_iff.1 hb.1).1
  unfold lesser
  split
  next h =>
    refine ⟨.inr rfl, ?_⟩
    rintro x (rfl | rfl)
    · exact Binary64.le_iff.2 ⟨hbn, han, (Binary64.lt_iff.1 h).2.2.le⟩
    · exact Binary64.le_iff.2 ⟨hbn, hbn, le_rfl⟩
  next h =>
    refine ⟨.inl rfl, ?_⟩
    rintro x (rfl | rfl)
    · exact Binary64.le_iff.2 ⟨han, han, le_rfl⟩
    -- not being less is being at most because neither is a NaN
    · exact Binary64.le_iff.2 ⟨han, hbn, not_lt.1 fun hlt => h (Binary64.lt_iff.2 ⟨hbn, han, hlt⟩)⟩

/-- The lesser of two counts is the least of them. -/
theorem isLeast_min (a b : UInt64) : IsLeast {a, b} (min a b) := by
  rw [UInt64.min_def]
  split
  next h => exact ⟨.inl rfl, by rintro x (rfl | rfl) <;> [exact UInt64.le_refl _; exact h]⟩
  next h =>
    have hle := (UInt64.le_total a b).resolve_left h
    exact ⟨.inr rfl, by rintro x (rfl | rfl) <;> [exact hle; exact UInt64.le_refl _]⟩

/-- The lesser of two durations that can steer a search can do so as well. -/
theorem IsUsable.lesser {a b : Float} (ha : IsUsable a) (hb : IsUsable b) :
    IsUsable (lesser a b) := by
  unfold Settings.lesser
  split
  · exact hb
  · exact ha

/-- Valid settings have a valid elementwise minimum. -/
theorem Valid.meet {a b : Settings} (ha : a.Valid) (hb : b.Valid) : (a.meet b).Valid where
  maxCheckInterval := ha.maxCheckInterval.lesser hb.maxCheckInterval
  threshold := ha.threshold.lesser hb.threshold
  maxIterationCount := by
    change 0 < min a.maxIterationCount b.maxIterationCount
    rw [UInt64.min_def]
    split
    · exact ha.maxIterationCount
    · exact hb.maxIterationCount

/-! ### Several settings -/

/-- A component of which the lesser of two settings has the least holds the least of several, if
they are met one after another. -/
theorem isLeast_foldl_meet {β : Type} [LE β] {component : Settings → β}
    (htrans : ∀ {x y z : β}, x ≤ y → y ≤ z → x ≤ z)
    (hmeet : ∀ a b : Settings, a.Valid → b.Valid →
      IsLeast {component a, component b} (component (a.meet b)))
    {s : Settings} {rest : List Settings} (hs : s.Valid) (hrest : ∀ t ∈ rest, t.Valid) :
    IsLeast (component '' {t | t ∈ s :: rest}) (component (rest.foldl meet s)) := by
  induction rest generalizing s with
  | nil =>
    refine ⟨⟨s, List.mem_cons_self, rfl⟩, ?_⟩
    rintro _ ⟨t, ht, rfl⟩
    obtain rfl := List.mem_singleton.1 ht
    have hself := hmeet t t hs hs
    have heq : component (t.meet t) = component t := by simpa using hself.1
    rw [heq] at hself
    exact hself.2 (.inl rfl)
  | cons t rest ih =>
    obtain ⟨ht, hrest⟩ := List.forall_mem_cons.1 hrest
    obtain ⟨⟨u, hu, heq⟩, hle⟩ := ih (hs.meet ht) hrest
    obtain ⟨hfrom, hbelow⟩ := hmeet s t hs ht
    constructor
    · rcases List.mem_cons.1 hu with rfl | hu
      · rcases hfrom with h | h
        · exact ⟨s, by simp, h.symm.trans heq⟩
        · exact ⟨t, by simp, h.symm.trans heq⟩
      · exact ⟨u, by simp [hu], heq⟩
    · have hmeet := hle ⟨_, List.mem_cons_self, rfl⟩
      rintro _ ⟨u, hu, rfl⟩
      rcases List.mem_cons.1 hu with rfl | hu
      · exact htrans hmeet (hbelow (.inl rfl))
      rcases List.mem_cons.1 hu with rfl | hu
      · exact htrans hmeet (hbelow (.inr rfl))
      · exact hle ⟨u, List.mem_cons_of_mem _ hu, rfl⟩

/-- The most stringent of several valid settings are their elementwise minimum. -/
theorem isElementwiseMin_mostStringent {operands : List Settings} {s : Settings}
    (hv : ∀ t ∈ operands, t.Valid) (h : mostStringent operands = some s) :
    IsElementwiseMin operands s := by
  match operands, h with
  | t :: rest, h =>
    obtain ⟨ht, hrest⟩ := List.forall_mem_cons.1 hv
    obtain rfl := Option.some.inj h
    exact
      { maxCheckInterval := isLeast_foldl_meet Binary64.le_trans
          (fun a b ha hb => isLeast_lesser ha.maxCheckInterval hb.maxCheckInterval) ht hrest
        threshold := isLeast_foldl_meet Binary64.le_trans
          (fun a b ha hb => isLeast_lesser ha.threshold hb.threshold) ht hrest
        maxIterationCount := isLeast_foldl_meet UInt64.le_trans
          (fun a b _ _ => isLeast_min a.maxIterationCount b.maxIterationCount) ht hrest }

/-- The elementwise minimum of valid settings is valid, though none of them may have all three of
its components. -/
theorem IsElementwiseMin.valid {operands : List Settings} {s : Settings}
    (h : IsElementwiseMin operands s) (hv : ∀ t ∈ operands, t.Valid) : s.Valid := by
  obtain ⟨t₁, ht₁, h₁⟩ := h.maxCheckInterval.1
  obtain ⟨t₂, ht₂, h₂⟩ := h.threshold.1
  obtain ⟨t₃, ht₃, h₃⟩ := h.maxIterationCount.1
  exact ⟨h₁ ▸ (hv t₁ ht₁).maxCheckInterval, h₂ ▸ (hv t₂ ht₂).threshold,
    h₃ ▸ (hv t₃ ht₃).maxIterationCount⟩

/-- The least of several elements, each of which is the least of a group, is the least of all groups
together. -/
theorem isLeast_image_flatMap {α β : Type} [LE β] {component : Settings → β}
    (htrans : ∀ {x y z : β}, x ≤ y → y ≤ z → x ≤ z) {as : List α} {f : α → Settings}
    {group : α → List Settings} {x : β} (h : IsLeast (component '' {t | t ∈ as.map f}) x)
    (hgroup : ∀ a ∈ as, IsLeast (component '' {t | t ∈ group a}) (component (f a))) :
    IsLeast (component '' {t | t ∈ as.flatMap group}) x := by
  constructor
  · obtain ⟨t, ht, rfl⟩ := h.1
    obtain ⟨a, ha, rfl⟩ := List.mem_map.1 ht
    obtain ⟨u, hu, heq⟩ := (hgroup a ha).1
    exact ⟨u, List.mem_flatMap.2 ⟨a, ha, hu⟩, heq⟩
  · rintro _ ⟨u, hu, rfl⟩
    obtain ⟨a, ha, hu⟩ := List.mem_flatMap.1 hu
    exact htrans (h.2 ⟨f a, List.mem_map_of_mem ha, rfl⟩) ((hgroup a ha).2 ⟨u, hu, rfl⟩)

/-- The elementwise minimum of several settings, each of which is the elementwise minimum of a
group, is that of all groups together. -/
theorem IsElementwiseMin.flatMap {α : Type} {as : List α} {f : α → Settings}
    {group : α → List Settings} {s : Settings} (h : IsElementwiseMin (as.map f) s)
    (hgroup : ∀ a ∈ as, IsElementwiseMin (group a) (f a)) :
    IsElementwiseMin (as.flatMap group) s where
  maxCheckInterval := isLeast_image_flatMap Binary64.le_trans h.maxCheckInterval
    fun a ha => (hgroup a ha).maxCheckInterval
  threshold := isLeast_image_flatMap Binary64.le_trans h.threshold
    fun a ha => (hgroup a ha).threshold
  maxIterationCount := isLeast_image_flatMap UInt64.le_trans h.maxIterationCount
    fun a ha => (hgroup a ha).maxIterationCount

/-- Two durations that can steer a search are the same if neither exceeds the other. -/
theorem IsUsable.eq_of_le_of_le {a b : Float} (ha : IsUsable a) (hab : a ≤ b) (hba : b ≤ a) :
    a = b := by
  have hplace : place a = place b :=
    le_antisymm (Binary64.le_iff.1 hab).2.2 (Binary64.le_iff.1 hba).2.2
  exact eq_of_place_eq hplace (zero_lt_iff.1 ha.2).2.ne'

/-- The elementwise minimum of several settings, if it is valid, depends only on which settings
these are. -/
theorem IsElementwiseMin.unique {ss ts : List Settings} {s t : Settings}
    (hs : IsElementwiseMin ss s) (ht : IsElementwiseMin ts t) (hvalid : s.Valid)
    (hmem : ∀ u, u ∈ ss ↔ u ∈ ts) : s = t := by
  have hset : {u | u ∈ ss} = {u | u ∈ ts} := Set.ext hmem
  obtain ⟨hspacing, hthreshold, hcount⟩ := ht
  rw [← hset] at hspacing hthreshold hcount
  rw [Settings.mk.injEq]
  exact ⟨hvalid.maxCheckInterval.eq_of_le_of_le (hs.maxCheckInterval.2 hspacing.1)
      (hspacing.2 hs.maxCheckInterval.1),
    hvalid.threshold.eq_of_le_of_le (hs.threshold.2 hthreshold.1) (hthreshold.2 hs.threshold.1),
    UInt64.le_antisymm (hs.maxIterationCount.2 hcount.1) (hcount.2 hs.maxIterationCount.1)⟩

end Settings

/-- Detectors with valid settings, if there are any, have a composite. It searches with the
elementwise minimum of their settings. -/
theorem Detector.exists_compose_eq {ι κ : Type} (r : Reducer) {ds : List (Detector ι κ)}
    (hne : ds ≠ []) (hv : ∀ d ∈ ds, d.settings.Valid) :
    ∃ d, compose r ds = .ok d ∧ Settings.IsElementwiseMin (ds.map settings) d.settings := by
  match ds, hne with
  | d :: rest, _ =>
    exact ⟨_, rfl, Settings.isElementwiseMin_mostStringent (by simpa using hv) rfl⟩

end TrajectoryEvents
