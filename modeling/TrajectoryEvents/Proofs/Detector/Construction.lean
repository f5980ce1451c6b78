import TrajectoryEvents.Configuration
import TrajectoryEvents.Detector.Locate
import TrajectoryEvents.Proofs.Detector.Meaning
import TrajectoryEvents.Proofs.Detector.Preparation
import TrajectoryEvents.Proofs.Settings.Meet

/-!
# What can be constructed

Settings come from validation, from the standard, from a configuration text, or from other settings;
detectors come from indicators and from other detectors. Not all of these operations validate: the
most stringent settings are put together as they are, and a detector is rebuilt with any settings.
Nevertheless, no operation leads to settings that are not valid, or to a composite without operands.

## Main definitions

* `Product`, `Constructible`: the settings and detectors that the operations produce.
* `Product.Sound`: valid settings, and detectors with valid settings and with operands throughout.

## Main results

* `Constructible.sound`: whatever the operations produce is sound.
* `Detector.Sound.exists_leaf_of_emptyOperandSet`: a sound detector never fails for want of
  operands, unless an indicator does.
* `Detector.constructible_sound`: all of this for constructible detectors.
-/

namespace TrajectoryEvents

variable {ι κ : Type}

/-! ### Operations -/

/-- What the operations on settings and detectors produce. -/
inductive Product (ι κ : Type)
  | settings (s : Settings)
  | detector (d : Detector ι κ)

/-- The settings and detectors that a sequence of operations produces. -/
inductive Constructible : Product ι κ → Prop
  /-- Settings that are accepted by validation. -/
  | validate {s t : Settings} (h : s.validate = .ok t) : Constructible (.settings t)
  | standard : Constructible (.settings .standard)
  /-- Settings read from a text. -/
  | read {text : String} {s : Settings} (h : JsonForm.read text = .ok s) :
    Constructible (.settings s)
  | withMaxCheckInterval {s t : Settings} {duration : Float} (hs : Constructible (.settings s))
    (h : s.withMaxCheckInterval duration = .ok t) : Constructible (.settings t)
  | withThreshold {s t : Settings} {duration : Float} (hs : Constructible (.settings s))
    (h : s.withThreshold duration = .ok t) : Constructible (.settings t)
  | withMaxIterationCount {s t : Settings} {count : UInt64} (hs : Constructible (.settings s))
    (h : s.withMaxIterationCount count = .ok t) : Constructible (.settings t)
  | mostStringent {ss : List Settings} {t : Settings}
    (hss : ∀ s ∈ ss, Constructible (.settings s)) (h : Settings.mostStringent ss = some t) :
    Constructible (.settings t)
  /-- The settings at any node of a detector can be had back. -/
  | settings {d e : Detector ι κ} (hd : Constructible (.detector d)) (he : e ∈ d.nodes) :
    Constructible (.settings e.settings)
  | ofIndicator (i : ι) : Constructible (.detector (.ofIndicator i))
  /-- The conjunction or the disjunction of several detectors. -/
  | compose {r : Reducer} {ds : List (Detector ι κ)} {d : Detector ι κ}
    (hds : ∀ d ∈ ds, Constructible (.detector d)) (h : Detector.compose r ds = .ok d) :
    Constructible (.detector d)
  | not {d : Detector ι κ} (hd : Constructible (.detector d)) : Constructible (.detector d.not)
  /-- A detector rebuilt in any of the ways there are. The settings that are taken as they are have
  to come from somewhere. -/
  | rebuild {d d' : Detector ι κ} {call : Rebuild κ} (hd : Constructible (.detector d))
    (hcall : ∀ s h, call = .settings s h → Constructible (.settings s))
    (h : d.rebuild call = .ok d') : Constructible (.detector d')
  | init {S τ : Type} [Initializable ι S τ] [CustomHandler κ S τ] {d : Detector ι κ}
    (hd : Constructible (.detector d)) (s : S) (target : Epoch) (m : Memory τ) :
    Constructible (.detector ((d.init s target).run m).1)
  /-- The detector that a search leaves, whether it succeeds or fails. -/
  | locate {S τ : Type} [Indicator ι S] [Snapshot S] [Initializable ι S τ] [CustomHandler κ S τ]
    {d : Detector ι κ} (hd : Constructible (.detector d)) (trajectory : Epoch → StateM τ S)
    (start finish : Epoch) (m : Memory τ) :
    Constructible (.detector ((d.locate trajectory start finish).run m).1.2)

/-! ### Sound detectors -/

namespace Detector

/-- A node with valid settings and, if it is a composite, with operands. -/
def SoundNode : Detector ι κ → Prop
  | .atomic _ s _ => s.Valid
  | .boolean _ ds s _ => s.Valid ∧ ds ≠ []
  | .negate _ s _ => s.Valid

/-- A detector all nodes of which are sound. -/
def Sound (d : Detector ι κ) : Prop := ∀ e ∈ d.nodes, e.SoundNode

/-- A sound node has valid settings. -/
theorem SoundNode.valid {e : Detector ι κ} (he : e.SoundNode) : e.settings.Valid := by
  cases e with
  | atomic => exact he
  | boolean => exact he.1
  | negate => exact he

/-- Whether a node is sound does not depend on the indicators. -/
theorem soundNode_skeleton {e : Detector ι κ} : e.skeleton.SoundNode ↔ e.SoundNode := by
  cases e with
  | atomic => rfl
  | boolean r ds s h =>
    change s.Valid ∧ mapAll _ _ ds ≠ [] ↔ s.Valid ∧ ds ≠ []
    rw [mapAll_eq, ne_eq, List.map_eq_nil_iff]
  | negate => rfl

/-- The settings of a sound detector are valid. -/
theorem Sound.valid {d : Detector ι κ} (hd : d.Sound) : d.settings.Valid :=
  (hd d d.mem_nodes_self).valid

/-- Valid settings and another handler leave a detector sound. -/
theorem Sound.withSettings {d : Detector ι κ} (hd : d.Sound) {s : Settings} (hs : s.Valid)
    (h : Handler κ) : (d.withSettings s h).Sound := by
  cases d with
  | atomic => exact List.forall_mem_singleton.2 hs
  | boolean =>
    obtain ⟨hnode, hrest⟩ := List.forall_mem_cons.1 hd
    exact List.forall_mem_cons.2 ⟨⟨hs, hnode.2⟩, hrest⟩
  | negate => exact List.forall_mem_cons.2 ⟨hs, (List.forall_mem_cons.1 hd).2⟩

/-- A composite of sound detectors is sound. -/
theorem Sound.compose {r : Reducer} {ds : List (Detector ι κ)} {d : Detector ι κ}
    (hds : ∀ d ∈ ds, d.Sound) (h : compose r ds = .ok d) : d.Sound := by
  cases ds with
  -- no operands are refused
  | nil => cases h
  | cons d₀ rest =>
    have hvalid : ∀ s ∈ (d₀ :: rest).map settings, s.Valid := by
      simpa only [List.forall_mem_map] using fun d hd => (hds d hd).valid
    have hmin := Settings.isElementwiseMin_mostStringent hvalid rfl
    obtain rfl := Except.ok.inj h
    refine List.forall_mem_cons.2 ⟨⟨hmin.valid hvalid, nofun⟩, fun e he => ?_⟩
    obtain ⟨d, hd, he⟩ := mem_nodesAll.1 he
    exact hds d hd e he

/-- The negation of a sound detector is sound. -/
theorem Sound.not {d : Detector ι κ} (hd : d.Sound) : d.not.Sound :=
  List.forall_mem_cons.2 ⟨hd.valid, hd⟩

/-- A sound detector that is rebuilt with valid settings, if any are given, is sound. -/
theorem Sound.rebuild {d d' : Detector ι κ} (hd : d.Sound) {call : Rebuild κ}
    (hcall : ∀ s h, call = .settings s h → s.Valid) (h : d.rebuild call = .ok d') : d'.Sound := by
  cases call with
  | settings s handler =>
    obtain rfl := Except.ok.inj h
    exact hd.withSettings (hcall s handler rfl) handler
  | handler handler =>
    obtain rfl := Except.ok.inj h
    exact hd.withSettings hd.valid handler
  | maxCheckInterval | threshold | maxIterationCount =>
    obtain ⟨hs, rfl⟩ := eq_of_validated h
    exact hd.withSettings hs _

/-- Preparing a sound detector leaves it sound. -/
theorem Sound.init {S τ : Type} [Initializable ι S τ] [CustomHandler κ S τ] {d : Detector ι κ}
    (hd : d.Sound) (s : S) (target : Epoch) (m : Memory τ) :
    ((d.init s target).run m).1.Sound := by
  have hnodes := forall_nodes_init (P := SoundNode) d s target m
  simp only [soundNode_skeleton] at hnodes
  exact hnodes.2 hd

/-- So does a search, whether it succeeds or fails. -/
theorem Sound.locate {S τ : Type} [Indicator ι S] [Snapshot S] [Initializable ι S τ]
    [CustomHandler κ S τ] {d : Detector ι κ} (hd : d.Sound) (trajectory : Epoch → StateM τ S)
    (start finish : Epoch) (m : Memory τ) :
    ((d.locate trajectory start finish).run m).1.2.Sound := by
  by_cases h : finish ≤ start
  · rw [d.run_locate_of_le trajectory h]
    exact hd
  · rw [d.run_locate trajectory h]
    exact hd.init _ finish _

/-- A sound detector has no composite without operands. -/
theorem Sound.wellFormed {d : Detector ι κ} (hd : d.Sound) : d.WellFormed := by
  induction d with
  | atomic i s h => exact .atomic i s h
  | boolean r ds s h ih =>
    obtain ⟨hnode, hrest⟩ := List.forall_mem_cons.1 hd
    exact .boolean hnode.2 fun d hd => ih d hd fun e he => hrest e (mem_nodesAll.2 ⟨d, hd, he⟩)
  | negate d s h ih => exact .negate (ih (List.forall_mem_cons.1 hd).2)

/-- A sound detector never fails for want of operands, unless an indicator does. -/
theorem Sound.exists_leaf_of_emptyOperandSet {S : Type} [Indicator ι S] {d : Detector ι κ}
    (hd : d.Sound) {s : S} {r : Reducer} (h : d.g s = .error (.emptyOperandSet r)) :
    ∃ i ∈ d.leaves, Indicator.g i s = .error (.emptyOperandSet r) :=
  (hd.wellFormed.g_eq_error_iff.1 h).exists_mem

/-- Detectors have no composite exactly if there are none. -/
theorem compose_eq_error_iff {r : Reducer} {ds : List (Detector ι κ)} {e : EventError} :
    compose r ds = .error e ↔ ds = [] ∧ e = .emptyOperandSet r := by
  cases ds with
  | nil =>
    refine ⟨fun h => ⟨rfl, (Except.error.inj h).symm⟩, ?_⟩
    rintro ⟨-, rfl⟩
    rfl
  | cons => exact ⟨nofun, nofun⟩

end Detector

/-! ### Construction -/

/-- What has valid settings, at every node of a detector, and operands at every composite. -/
def Product.Sound : Product ι κ → Prop
  | .settings s => s.Valid
  | .detector d => d.Sound

/-- Settings that are read from a text are valid. -/
theorem Settings.valid_of_read {text : String} {s : Settings}
    (h : JsonForm.read text = .ok s) : s.Valid := by
  unfold JsonForm.read at h
  split at h
  · cases h
  · obtain ⟨t, ht, h⟩ := exists_of_bind_eq_ok h
    -- what is decoded has been validated
    obtain ⟨raw, -, ht⟩ := exists_of_bind_eq_ok ht
    obtain rfl : t = s := by
      split at h
      · exact Except.ok.inj h
      · cases h
    cases hv : raw.validate with
    | error e =>
      rw [hv] at ht
      cases ht
    | ok u =>
      rw [hv] at ht
      obtain rfl := Except.ok.inj ht
      obtain ⟨hs, rfl⟩ := validate_eq_ok_iff.1 hv
      exact hs

/-- Whatever the operations produce is sound. -/
theorem Constructible.sound {x : Product ι κ} (h : Constructible x) : x.Sound := by
  induction h with
  | validate h | withMaxCheckInterval _ h | withThreshold _ h | withMaxIterationCount _ h =>
    obtain ⟨hs, rfl⟩ := Settings.validate_eq_ok_iff.1 h
    exact hs
  | standard => exact Settings.valid_standard
  | read h => exact Settings.valid_of_read h
  | mostStringent _ h ih => exact (Settings.isElementwiseMin_mostStringent ih h).valid ih
  | settings _ he ih => exact (ih _ he).valid
  | ofIndicator => exact List.forall_mem_singleton.2 Settings.valid_standard
  | compose _ h ih => exact .compose ih h
  | not _ ih => exact ih.not
  | rebuild _ _ h ih ihcall => exact ih.rebuild ihcall h
  | init _ s target m ih => exact ih.init s target m
  | locate _ trajectory start finish m ih => exact ih.locate trajectory start finish m

namespace Detector

/-- What can be constructed is well formed. Whatever sequence of operations leads to them, settings
are valid, and so are those of every node of a detector; every composite has operands. So a detector
fails for want of operands only if one of its indicators does, and a composition fails only on the
empty list, for want of operands of its own. -/
theorem constructible_sound {S : Type} [Indicator ι S] :
    (∀ x : Product ι κ, Constructible x → x.Sound) ∧
      (∀ d : Detector ι κ, Constructible (.detector d) → ∀ (s : S) (r : Reducer),
        d.g s = .error (.emptyOperandSet r) →
          ∃ i ∈ d.leaves, Indicator.g i s = .error (.emptyOperandSet r)) ∧
      ∀ (ds : List (Detector ι κ)) (e : EventError),
        (all ds = .error e ↔ ds = [] ∧ e = .emptyOperandSet .min) ∧
          (any ds = .error e ↔ ds = [] ∧ e = .emptyOperandSet .max) := by
  refine ⟨fun x h => h.sound, ?_, fun ds e => ⟨compose_eq_error_iff, compose_eq_error_iff⟩⟩
  intro d h s r hg
  have hsound : d.Sound := h.sound
  exact hsound.exists_leaf_of_emptyOperandSet hg

/-- A conjunction with settings of different origins. Its first indicator fails for want of operands
that are its own affair. -/
def gate : Detector (FnIndicator TrajectoryState) Empty :=
  .boolean .min
    [.atomic ⟨"nested", fun _ => .error (.emptyOperandSet .max)⟩ ⟨1.0, 0.5, 7⟩ .stopOnEvent,
      .negate (.atomic ⟨"level", fun _ => .ok 1.0⟩ .standard .continueOnEvent) .standard
        .continueOnEvent]
    ⟨1.0, 1e-6, 7⟩ .continueOnEvent

theorem constructible_sound_gate :
    Constructible (.detector gate) ∧ gate.Sound ∧
      gate.g (⟨⟨0.0⟩, []⟩ : TrajectoryState) = .error (.emptyOperandSet .max) ∧
      ∃ i ∈ gate.leaves,
        Indicator.g i (⟨⟨0.0⟩, []⟩ : TrajectoryState) = .error (.emptyOperandSet .max) := by
  have hread : JsonForm.read "[1.0,0.5,7]" = .ok (⟨1.0, 0.5, 7⟩ : Settings) := by decide +kernel
  have hrebuild : (ofIndicator ⟨"nested", fun _ => .error (.emptyOperandSet .max)⟩ :
      Detector (FnIndicator TrajectoryState) Empty).rebuild
        (.settings ⟨1.0, 0.5, 7⟩ .stopOnEvent) =
      .ok (.atomic ⟨"nested", fun _ => .error (.emptyOperandSet .max)⟩ ⟨1.0, 0.5, 7⟩
        .stopOnEvent) := rfl
  have hnested : Constructible (.detector (.atomic
      ⟨"nested", fun _ => .error (.emptyOperandSet .max)⟩ ⟨1.0, 0.5, 7⟩ .stopOnEvent :
        Detector (FnIndicator TrajectoryState) Empty)) := by
    refine .rebuild (.ofIndicator _) ?_ hrebuild
    rintro s h ⟨⟩
    exact .read hread
  have hlevel : Constructible (.detector (.atomic ⟨"level", fun _ => .ok 1.0⟩ .standard
      .continueOnEvent : Detector (FnIndicator TrajectoryState) Empty)) := .ofIndicator _
  have hgate : Constructible (.detector gate) :=
    .compose (List.forall_mem_cons.2 ⟨hnested, List.forall_mem_singleton.2 hlevel.not⟩) rfl
  obtain ⟨hsound, hleaf, -⟩ :=
    @constructible_sound (FnIndicator TrajectoryState) Empty TrajectoryState _
  have hg : gate.g (⟨⟨0.0⟩, []⟩ : TrajectoryState) = .error (.emptyOperandSet .max) := rfl
  exact ⟨hgate, hsound (.detector gate) hgate, hg, hleaf gate hgate _ _ hg⟩

end Detector

end TrajectoryEvents
