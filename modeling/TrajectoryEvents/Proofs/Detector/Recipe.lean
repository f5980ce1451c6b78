import TrajectoryEvents.Proofs.Detector.Construction
import TrajectoryEvents.Proofs.Detector.Rebuilding

/-!
# Recipes

A detector does not tell how it was built: the settings of a composite may be those that it was
composed with, or others that it was given later. A recipe tells. It has a part for every node of
the detector, with the replacements made there.

## Main definitions

* `Recipe`, `Recipe.build`: how a detector is built, and the detector.
* `Recipe.parts`: the parts of a recipe, in the order of the nodes.
* `Recipe.IsPlain`: a recipe that rebuilds indicators only.
* `Recipe.Accounts`: what a part tells about the settings of its node.
* `Detector.leafSettings`: the settings of the atomic nodes of a detector.

## Main results

* `Recipe.exists_build_iff`: the detectors that have a recipe.
* `Recipe.forall₂_accounts`: every part of a recipe accounts for its node.
* `Recipe.isElementwiseMin_leafSettings`: with a plain recipe, a detector has the most stringent
  settings of its leaves.
* `Recipe.build_settings`: what the settings of a detector depend on.
-/

namespace TrajectoryEvents

variable {ι κ : Type}

/-- Several replacements leave a detector sound if the settings given as a whole are valid. -/
theorem Detector.Sound.rebuildAll {d d' : Detector ι κ} (hd : d.Sound) {calls : List (Rebuild κ)}
    (hcalls : ∀ s h, Rebuild.settings s h ∈ calls → s.Valid) (h : d.rebuildAll calls = .ok d') :
    d'.Sound :=
  rebuildAll_preserves (fun _ hc _ _ hd => hd.rebuild fun s h hs => hcalls s h (hs ▸ hc)) hd h

/-- A composite has the most stringent settings of its operands. -/
theorem Detector.exists_of_compose {r : Reducer} {ds : List (Detector ι κ)} {d : Detector ι κ}
    (h : compose r ds = .ok d) :
    ∃ s, Settings.mostStringent (ds.map settings) = some s ∧
      d = .boolean r ds s .continueOnEvent := by
  cases ds with
  -- no operands are refused
  | nil => cases h
  | cons d₀ rest => exact ⟨_, rfl, (Except.ok.inj h).symm⟩

/-- The settings of the atomic nodes of a detector, from left to right. -/
def Detector.leafSettings (d : Detector ι κ) : List Settings :=
  d.nodes.filterMap fun
    | .atomic _ s _ => some s
    | .boolean _ _ _ _ | .negate _ _ _ => none

/-- The leaves of a composite are those of its operands. -/
theorem Detector.leafSettings_boolean (r : Reducer) (ds : List (Detector ι κ)) (s : Settings)
    (h : Handler κ) : (Detector.boolean r ds s h).leafSettings = ds.flatMap leafSettings := by
  rw [leafSettings, nodes, List.filterMap_cons_none rfl, nodesAll_eq, List.filterMap_flatMap]
  rfl

/-- How a detector is built: from indicators with the standard settings, by conjunction, disjunction
and negation. Each of the results is rebuilt with any number of replacements. -/
inductive Recipe (ι κ : Type)
  | ofIndicator (indicator : ι) (calls : List (Rebuild κ))
  | compose (reducer : Reducer) (operands : List (Recipe ι κ)) (calls : List (Rebuild κ))
  | not (original : Recipe ι κ) (calls : List (Rebuild κ))

namespace Recipe

/-- Induction over recipes, with the hypothesis for every operand of a composite. -/
@[elab_as_elim, induction_eliminator]
theorem induction {motive : Recipe ι κ → Prop}
    (ofIndicator : ∀ indicator calls, motive (.ofIndicator indicator calls))
    (compose : ∀ reducer operands calls, (∀ p ∈ operands, motive p) →
      motive (.compose reducer operands calls))
    (not : ∀ original calls, motive original → motive (.not original calls))
    (p : Recipe ι κ) : motive p :=
  @Recipe.rec ι κ motive (fun operands => ∀ p ∈ operands, motive p) ofIndicator compose not
    (fun _ h => nomatch h)
    (fun _ _ hp hrest _ h => by
      rcases List.mem_cons.1 h with rfl | h
      · exact hp
      · exact hrest _ h)
    p

/-! ### Building -/

mutual

/-- The detector that is built. -/
def build : Recipe ι κ → Except EventError (Detector ι κ)
  | .ofIndicator i calls => (Detector.ofIndicator i).rebuildAll calls
  | .compose r operands calls => do
    let ds ← buildAll operands
    let d ← Detector.compose r ds
    d.rebuildAll calls
  | .not original calls => do
    let d ← build original
    d.not.rebuildAll calls

/-- The detectors that are built by several recipes, in order. -/
def buildAll : List (Recipe ι κ) → Except EventError (List (Detector ι κ))
  | [] => return []
  | p :: ps => do
    let d ← build p
    let ds ← buildAll ps
    return d :: ds

end

mutual

/-- The parts of a recipe, a part before those of its operands and the operands from left to
right. -/
def parts : Recipe ι κ → List (Recipe ι κ)
  | .ofIndicator i calls => [.ofIndicator i calls]
  | .compose r operands calls => .compose r operands calls :: partsAll operands
  | .not original calls => .not original calls :: parts original

/-- The parts of several recipes, in order. -/
def partsAll : List (Recipe ι κ) → List (Recipe ι κ)
  | [] => []
  | p :: ps => parts p ++ partsAll ps

end

/-- The replacements at the root. -/
def calls : Recipe ι κ → List (Rebuild κ)
  | .ofIndicator _ calls | .compose _ _ calls | .not _ calls => calls

theorem partsAll_eq (ps : List (Recipe ι κ)) : partsAll ps = ps.flatMap parts := by
  induction ps with
  | nil => rfl
  | cons p ps ih => rw [partsAll, ih, List.flatMap_cons]

/-- The parts of a composite are the composite itself and the parts of its operands. -/
theorem forall_parts_compose {P : Recipe ι κ → Prop} {r : Reducer} {operands : List (Recipe ι κ)}
    {calls : List (Rebuild κ)} :
    (∀ q ∈ (compose r operands calls).parts, P q) ↔
      P (.compose r operands calls) ∧ ∀ p ∈ operands, ∀ q ∈ p.parts, P q := by
  rw [parts, partsAll_eq, List.forall_mem_cons, List.forall_mem_flatMap]

/-- Several detectors are built one by one. -/
theorem forall₂_of_buildAll {R : Recipe ι κ → Detector ι κ → Prop} {ps : List (Recipe ι κ)}
    {ds : List (Detector ι κ)} (h : buildAll ps = .ok ds)
    (hr : ∀ p ∈ ps, ∀ d, p.build = .ok d → R p d) : List.Forall₂ R ps ds := by
  induction ps generalizing ds with
  | nil =>
    obtain rfl := Except.ok.inj h
    exact .nil
  | cons p ps ih =>
    obtain ⟨d, hd, h⟩ := exists_of_bind_eq_ok h
    obtain ⟨ds, hds, h⟩ := exists_of_bind_eq_ok h
    obtain rfl := Except.ok.inj h
    obtain ⟨hp, hps⟩ := List.forall_mem_cons.1 hr
    exact .cons (hp d hd) (ih hds hps)

theorem forall_mem_of_buildAll {P : Detector ι κ → Prop} {ps : List (Recipe ι κ)}
    {ds : List (Detector ι κ)} (h : buildAll ps = .ok ds)
    (hp : ∀ p ∈ ps, ∀ d, p.build = .ok d → P d) : ∀ d ∈ ds, P d := by
  have hforall : List.Forall₂ (fun _ d => P d) ps ds := forall₂_of_buildAll h hp
  clear h hp
  induction hforall with
  | nil => nofun
  | cons hd _ ih => exact List.forall_mem_cons.2 ⟨hd, ih⟩

/-- The recipe without the replacements at the root. -/
def fresh : Recipe ι κ → Recipe ι κ
  | .ofIndicator i _ => .ofIndicator i []
  | .compose r operands _ => .compose r operands []
  | .not original _ => .not original []

/-- A detector is built fresh, and then the replacements at the root are made. -/
theorem build_eq (p : Recipe ι κ) :
    p.build = p.fresh.build >>= fun d => d.rebuildAll p.calls := by
  have hnil (d : Detector ι κ) : d.rebuildAll [] = pure d := rfl
  cases p <;> simp only [build, fresh, calls, hnil, bind_assoc, pure_bind]

/-! ### Detectors with a recipe -/

/-- The same recipe with one more replacement at the root. -/
def andThen (c : Rebuild κ) : Recipe ι κ → Recipe ι κ
  | .ofIndicator i calls => .ofIndicator i (calls ++ [c])
  | .compose r operands calls => .compose r operands (calls ++ [c])
  | .not original calls => .not original (calls ++ [c])

/-- One more replacement rebuilds the detector. -/
theorem build_andThen (p : Recipe ι κ) (c : Rebuild κ) :
    (p.andThen c).build = p.build >>= fun d => d.rebuild c := by
  have hconcat (d : Detector ι κ) (calls : List (Rebuild κ)) :
      d.rebuildAll (calls ++ [c]) = d.rebuildAll calls >>= fun d => d.rebuild c := by
    rw [Detector.rebuildAll, List.foldlM_append]
    simp only [List.foldlM_cons, List.foldlM_nil, bind_pure]
    rfl
  cases p <;> simp only [build, andThen, hconcat, bind_assoc]

/-- Detectors that have recipes one by one have recipes together. -/
theorem exists_buildAll {ds : List (Detector ι κ)}
    (h : ∀ d ∈ ds, ∃ p : Recipe ι κ, p.build = .ok d) :
    ∃ ps : List (Recipe ι κ), buildAll ps = .ok ds := by
  induction ds with
  | nil => exact ⟨[], rfl⟩
  | cons d ds ih =>
    obtain ⟨⟨p, hp⟩, hds⟩ := List.forall_mem_cons.1 h
    obtain ⟨ps, hps⟩ := ih hds
    refine ⟨p :: ps, ?_⟩
    rw [buildAll, hp, hps]
    rfl

/-- The detectors that have a recipe are those that are built from atomic ones, with any rebuilding
in between. -/
theorem exists_build_iff {d : Detector ι κ} : (∃ p : Recipe ι κ, p.build = .ok d) ↔ d.Built := by
  constructor
  · rintro ⟨p, h⟩
    induction p generalizing d with
    | ofIndicator i calls =>
      exact Detector.rebuildAll_preserves (fun _ _ => .rebuild) (.atomic i _ _) h
    | compose r operands calls ih =>
      obtain ⟨ds, hds, h⟩ := exists_of_bind_eq_ok h
      obtain ⟨d₀, hd₀, h⟩ := exists_of_bind_eq_ok h
      refine Detector.rebuildAll_preserves (fun _ _ => .rebuild) (.compose ?_ hd₀) h
      exact forall_mem_of_buildAll hds fun p hp d hd => ih p hp hd
    | not original calls ih =>
      obtain ⟨d₀, hd₀, h⟩ := exists_of_bind_eq_ok h
      exact Detector.rebuildAll_preserves (fun _ _ => .rebuild) (.not (ih hd₀)) h
  · intro hd
    induction hd with
    | atomic i s h => exact ⟨.ofIndicator i [.settings s h], rfl⟩
    | @compose r ds d _ h ih =>
      obtain ⟨ps, hps⟩ := exists_buildAll ih
      refine ⟨.compose r ps [], ?_⟩
      rw [build, hps]
      exact congrArg (· >>= fun d => d.rebuildAll []) h
    | not _ ih =>
      obtain ⟨p, hp⟩ := ih
      refine ⟨.not p [], ?_⟩
      rw [build, hp]
      rfl
    | @rebuild d d' c _ h ih =>
      obtain ⟨p, hp⟩ := ih
      refine ⟨p.andThen c, ?_⟩
      rw [build_andThen, hp]
      exact h

/-! ### Settings -/

/-- The settings that are given as a whole are valid. -/
def GivesValid (p : Recipe ι κ) : Prop :=
  ∀ q ∈ p.parts, ∀ s h, .settings s h ∈ q.calls → s.Valid

/-- A detector that is built with valid settings is sound. -/
theorem sound_build {p : Recipe ι κ} (hp : p.GivesValid) {d : Detector ι κ}
    (h : p.build = .ok d) : d.Sound := by
  induction p generalizing d with
  | ofIndicator i calls =>
    have hsound : (Detector.ofIndicator i : Detector ι κ).Sound :=
      List.forall_mem_singleton.2 Settings.valid_standard
    exact hsound.rebuildAll (hp _ List.mem_cons_self) h
  | compose r operands calls ih =>
    obtain ⟨hcalls, hoperands⟩ := forall_parts_compose.1 hp
    obtain ⟨ds, hds, h⟩ := exists_of_bind_eq_ok h
    obtain ⟨d₀, hd₀, h⟩ := exists_of_bind_eq_ok h
    have hsound : ∀ d ∈ ds, d.Sound :=
      forall_mem_of_buildAll hds fun p hp d hd => ih p hp (hoperands p hp) hd
    exact (Detector.Sound.compose hsound hd₀).rebuildAll hcalls h
  | not original calls ih =>
    obtain ⟨hcalls, horiginal⟩ := List.forall_mem_cons.1 hp
    obtain ⟨d₀, hd₀, h⟩ := exists_of_bind_eq_ok h
    exact (ih horiginal hd₀).not.rebuildAll hcalls h

/-- A composite that is built fresh has the elementwise minimum of the settings of its operands. -/
theorem exists_operands_of_build {r : Reducer} {operands : List (Recipe ι κ)}
    (hp : (compose r operands []).GivesValid) {d : Detector ι κ}
    (h : (compose r operands []).build = .ok d) :
    ∃ ds, buildAll operands = .ok ds ∧ d = .boolean r ds d.settings .continueOnEvent ∧
      Settings.IsElementwiseMin (ds.map Detector.settings) d.settings := by
  obtain ⟨ds, hds, h⟩ := exists_of_bind_eq_ok h
  obtain ⟨d₀, hd₀, h⟩ := exists_of_bind_eq_ok h
  obtain rfl := Except.ok.inj h
  have hvalid : ∀ s ∈ ds.map Detector.settings, s.Valid := by
    rw [List.forall_mem_map]
    exact forall_mem_of_buildAll hds fun p hmem d hd =>
      (sound_build ((forall_parts_compose.1 hp).2 p hmem) hd).valid
  obtain ⟨s, hs, rfl⟩ := Detector.exists_of_compose hd₀
  exact ⟨ds, hds, rfl, Settings.isElementwiseMin_mostStringent hvalid hs⟩

/-- What a part tells about the settings of the node that it builds. -/
structure Accounts (p : Recipe ι κ) (e : Detector ι κ) : Prop where
  build : p.build = .ok e
  /-- A composite that is not rebuilt has the elementwise minimum of the settings that its operands
  had when it was composed. -/
  composed : ∀ r operands, p = .compose r operands [] →
    ∃ ds, buildAll operands = .ok ds ∧ e = .boolean r ds e.settings .continueOnEvent ∧
      Settings.IsElementwiseMin (ds.map Detector.settings) e.settings
  /-- Each setting is the last one that was given at the node, or the one it was made with. -/
  rebuilt : ∃ e₀, p.fresh.build = .ok e₀ ∧ e.settings = e₀.settings.afterAll p.calls
  /-- Settings that are given as a whole are taken as they are. -/
  verbatim : ∀ before s h, p.calls = before ++ [.settings s h] → e.settings = s

theorem accounts_of_build {p : Recipe ι κ} (hp : p.GivesValid) {d : Detector ι κ}
    (h : p.build = .ok d) : p.Accounts d := by
  have heq := h
  rw [build_eq] at heq
  obtain ⟨d₀, hd₀, hcalls⟩ := exists_of_bind_eq_ok heq
  have hsettings : d.settings = d₀.settings.afterAll p.calls := by
    rw [Detector.eq_withSettings_of_rebuildAll hcalls, Detector.settings_withSettings]
  refine ⟨h, ?_, ⟨d₀, hd₀, hsettings⟩, ?_⟩
  · rintro r operands rfl
    exact exists_operands_of_build hp h
  · intro before s handler hlast
    rw [hsettings, hlast, Settings.afterAll_concat_settings]

/-- Every part of a recipe accounts for its node. -/
theorem forall₂_accounts {p : Recipe ι κ} (hp : p.GivesValid) {d : Detector ι κ}
    (h : p.build = .ok d) : List.Forall₂ Accounts p.parts d.nodes := by
  induction p generalizing d with
  | ofIndicator i calls =>
    have hself := accounts_of_build hp h
    obtain rfl := Detector.eq_withSettings_of_rebuildAll h
    exact .cons hself .nil
  | compose r operands calls ih =>
    have hself := accounts_of_build hp h
    obtain ⟨-, hoperands⟩ := forall_parts_compose.1 hp
    obtain ⟨ds, hds, h⟩ := exists_of_bind_eq_ok h
    obtain ⟨d₀, hd₀, h⟩ := exists_of_bind_eq_ok h
    obtain ⟨s, -, rfl⟩ := Detector.exists_of_compose hd₀
    -- the replacements at the root leave the operands as they were built
    obtain rfl := Detector.eq_withSettings_of_rebuildAll h
    have hall := forall₂_of_buildAll hds fun p hp d hd => ih p hp (hoperands p hp) hd
    refine .cons hself ?_
    rw [partsAll_eq, Detector.nodesAll_eq]
    exact List.rel_flatMap hall fun _ _ h => h
  | not original calls ih =>
    have hself := accounts_of_build hp h
    obtain ⟨d₀, hd₀, h⟩ := exists_of_bind_eq_ok h
    obtain rfl := Detector.eq_withSettings_of_rebuildAll h
    exact .cons hself (ih (List.forall_mem_cons.1 hp).2 hd₀)

/-- Nothing but indicators is rebuilt in the recipe. -/
def IsPlain (p : Recipe ι κ) : Prop :=
  ∀ q ∈ p.parts, q.calls = [] ∨ ∃ i, q = .ofIndicator i q.calls

/-- With a plain recipe, a detector has the elementwise minimum of the settings of its leaves. -/
theorem isElementwiseMin_leafSettings {p : Recipe ι κ} (hp : p.GivesValid) (hplain : p.IsPlain)
    {d : Detector ι κ} (h : p.build = .ok d) :
    Settings.IsElementwiseMin d.leafSettings d.settings := by
  induction p generalizing d with
  | ofIndicator i calls =>
    have hvalid := (sound_build hp h).valid
    obtain rfl := Detector.eq_withSettings_of_rebuildAll h
    exact Settings.isElementwiseMin_mostStringent (List.forall_mem_singleton.2 hvalid) rfl
  | compose r operands calls ih =>
    obtain ⟨hroot, hoperands⟩ := forall_parts_compose.1 hplain
    obtain rfl : calls = [] := hroot.resolve_right nofun
    obtain ⟨ds, hds, heq, hmin⟩ := exists_operands_of_build hp h
    rw [heq, Detector.leafSettings_boolean]
    -- the minimum over the operands, each of which has the minimum over its own leaves
    refine hmin.flatMap (forall_mem_of_buildAll hds fun q hq d hd => ?_)
    exact ih q hq ((forall_parts_compose.1 hp).2 q hq) (hoperands q hq) hd
  | not original calls ih =>
    obtain ⟨hroot, horiginal⟩ := List.forall_mem_cons.1 hplain
    obtain rfl : calls = [] := hroot.resolve_right nofun
    obtain ⟨d₀, hd₀, h⟩ := exists_of_bind_eq_ok h
    obtain rfl := Except.ok.inj h
    have hmin := ih (List.forall_mem_cons.1 hp).2 horiginal hd₀
    exact hmin

/-- What the settings of a detector depend on, for recipes that give only valid settings as a whole.

* If nothing but indicators is rebuilt, the settings are the elementwise minimum of those of the
  leaves. They do not depend on anything else: two such detectors have the same settings if the
  settings of their leaves are the same, whatever order, repetitions, composites and negations there
  are.
* However it is rebuilt, every node has the settings that its part of the recipe accounts for. -/
theorem build_settings (p : Recipe ι κ) (hp : p.GivesValid) (d : Detector ι κ)
    (h : p.build = .ok d) :
    (p.IsPlain → Settings.IsElementwiseMin d.leafSettings d.settings ∧
      ∀ (p' : Recipe ι κ) (d' : Detector ι κ), p'.GivesValid → p'.IsPlain → p'.build = .ok d' →
        (∀ s, s ∈ d.leafSettings ↔ s ∈ d'.leafSettings) → d.settings = d'.settings) ∧
    List.Forall₂ Accounts p.parts d.nodes := by
  refine ⟨fun hplain => ?_, forall₂_accounts hp h⟩
  have hmin := isElementwiseMin_leafSettings hp hplain h
  refine ⟨hmin, fun p' d' hp' hplain' h' hmem => ?_⟩
  have hmin' := isElementwiseMin_leafSettings hp' hplain' h'
  exact hmin.unique hmin' (sound_build hp h).valid hmem

/-! ### Two components -/

/-- One of two components lies above a level. -/
def first : Recipe ComponentThreshold Empty :=
  .ofIndicator ⟨0, 0.5⟩ [.settings ⟨4.0, 0.5, 100⟩ .continueOnEvent]

/-- The other one does. -/
def second : Recipe ComponentThreshold Empty :=
  .ofIndicator ⟨1, 0.5⟩ [.settings ⟨8.0, 0.25, 7⟩ .stopOnEvent]

/-- The first component lies above the level only if the second one does. -/
def nested : Recipe ComponentThreshold Empty :=
  .compose .max [.compose .min [first, second] [], .not first []] []

/-- The first component lies above the level, but not the second one. -/
def flat : Recipe ComponentThreshold Empty := .compose .min [.not second [], first] []

/-- The first of these, with replacements at both composites. -/
def relaxed : Recipe ComponentThreshold Empty :=
  .compose .max [.compose .min [first, second] [.settings ⟨9.0, 0.5, 3⟩ .stopOnEvent],
    .not first []] [.threshold 2.0]

theorem build_settings_shapes :
    (∃ d d', nested.build = .ok d ∧ flat.build = .ok d' ∧ d.settings = ⟨4.0, 0.25, 7⟩ ∧
      Settings.IsElementwiseMin d.leafSettings d.settings ∧ d.settings = d'.settings) ∧
    ∃ d, relaxed.build = .ok d ∧ d.settings = ⟨4.0, 2.0, 3⟩ ∧
      List.Forall₂ Accounts relaxed.parts d.nodes := by
  have hfirst : (⟨4.0, 0.5, 100⟩ : Settings).Valid := by decide
  have hsecond : (⟨8.0, 0.25, 7⟩ : Settings).Valid := by decide
  have hboth : (⟨9.0, 0.5, 3⟩ : Settings).Valid := by decide
  have hnested : nested.GivesValid ∧ nested.IsPlain := by
    simp [GivesValid, IsPlain, nested, first, second, parts, partsAll, calls, hfirst, hsecond]
  have hflat : flat.GivesValid ∧ flat.IsPlain := by
    simp [GivesValid, IsPlain, flat, first, second, parts, partsAll, calls, hfirst, hsecond]
  have hrelaxed : relaxed.GivesValid := by
    simp [GivesValid, relaxed, first, second, parts, partsAll, calls, hfirst, hsecond, hboth]
  constructor
  · obtain ⟨hplain, -⟩ := build_settings nested hnested.1 _ rfl
    obtain ⟨hmin, hshape⟩ := hplain hnested.2
    refine ⟨_, _, rfl, rfl, rfl, hmin, hshape flat _ hflat.1 hflat.2 rfl fun s => ?_⟩
    -- the same leaves in another order, one of them twice
    change s ∈ ([⟨4.0, 0.5, 100⟩, ⟨8.0, 0.25, 7⟩, ⟨4.0, 0.5, 100⟩] : List Settings) ↔
      s ∈ ([⟨8.0, 0.25, 7⟩, ⟨4.0, 0.5, 100⟩] : List Settings)
    simp only [List.mem_cons, List.not_mem_nil, or_false]
    grind
  · obtain ⟨-, haccounts⟩ := build_settings relaxed hrelaxed _ rfl
    exact ⟨_, rfl, rfl, haccounts⟩

end Recipe

end TrajectoryEvents
