import TrajectoryEvents.Proofs.Detector.Meaning

/-!
# Rebuilding a detector

A replacement takes away nothing but what it replaces. So what several of them have done can be told
from the list of them: each setting and the handler is the last one given. A replacement of one
setting validates all three, yet it is refused for its own value only, since the settings that a
detector carries are valid.

## Main definitions

* `Rebuild.Acceptable`, `Rebuild.Refused`: whether the value of a replacement can steer a search,
  and the error if not.
* `Rebuild.lastGiven`: the last value given by several replacements.
* `Detector.Readjusted`: the same detector with other settings and another handler at its root.

## Main results

* `Detector.eq_withSettings_of_rebuildAll`: what several replacements make of a detector.
* `Detector.rebuildAll_eq_error_iff`: the first unusable value is the one that is reported.
* `Detector.rebuildAll_readjusted`: several replacements succeed exactly if every value is usable,
  and leave alone what the detector computes.
-/

namespace TrajectoryEvents

variable {α ι κ : Type}

/-! ### Single replacements -/

namespace Rebuild

/-- The largest spacing that a replacement gives, if it gives one. -/
def maxCheckInterval? : Rebuild κ → Option Float
  | .settings s _ => some s.maxCheckInterval
  | .maxCheckInterval duration => some duration
  | .handler _ | .threshold _ | .maxIterationCount _ => none

/-- The threshold that a replacement gives, if it gives one. -/
def threshold? : Rebuild κ → Option Float
  | .settings s _ => some s.threshold
  | .threshold duration => some duration
  | .handler _ | .maxCheckInterval _ | .maxIterationCount _ => none

/-- The bound on the bisections that a replacement gives, if it gives one. -/
def maxIterationCount? : Rebuild κ → Option UInt64
  | .settings s _ => some s.maxIterationCount
  | .maxIterationCount count => some count
  | .handler _ | .maxCheckInterval _ | .threshold _ => none

/-- The handler that a replacement gives, if it gives one. -/
def handler? : Rebuild κ → Option (Handler κ)
  | .settings _ h | .handler h => some h
  | .maxCheckInterval _ | .threshold _ | .maxIterationCount _ => none

/-- A replacement with a value that can steer a search. Settings that are given as a whole have been
validated before, and handlers are not checked. -/
def Acceptable : Rebuild κ → Prop
  | .settings _ _ | .handler _ => True
  | .maxCheckInterval duration | .threshold duration => Settings.IsUsable duration
  | .maxIterationCount count => 0 < count

instance (c : Rebuild κ) : Decidable c.Acceptable :=
  match c with
  | .settings _ _ | .handler _ => inferInstanceAs (Decidable True)
  | .maxCheckInterval _ | .threshold _ => inferInstanceAs (Decidable (Settings.IsUsable _))
  | .maxIterationCount _ => inferInstanceAs (Decidable (_ < _))

/-- A replacement with a value that cannot steer a search, and the error that names both. -/
inductive Refused : Rebuild κ → EventError → Prop
  | maxCheckInterval {duration : Float} (h : ¬ Settings.IsUsable duration) :
    Refused (.maxCheckInterval duration) (.invalidSetting .maxCheckInterval duration)
  | threshold {duration : Float} (h : ¬ Settings.IsUsable duration) :
    Refused (.threshold duration) (.invalidSetting .threshold duration)
  | maxIterationCount : Refused (.maxIterationCount 0) (.invalidSetting .maxIterationCount 0.0)

/-- A replacement with an acceptable value is not refused. -/
theorem Acceptable.not_refused {c : Rebuild κ} (h : c.Acceptable) (e : EventError) :
    ¬ c.Refused e := by
  intro he
  cases he with
  | maxCheckInterval hr | threshold hr => exact hr h
  | maxIterationCount => exact UInt64.lt_irrefl 0 h

/-- A replacement with any other value is refused. -/
theorem exists_refused {c : Rebuild κ} (h : ¬ c.Acceptable) : ∃ e, c.Refused e := by
  cases c with
  | settings | handler => exact absurd trivial h
  | maxCheckInterval => exact ⟨_, .maxCheckInterval h⟩
  | threshold => exact ⟨_, .threshold h⟩
  | maxIterationCount count =>
    obtain rfl : count = 0 := Decidable.not_not.1 fun h0 => h (UInt64.pos_iff_ne_zero.2 h0)
    exact ⟨_, .maxIterationCount⟩

/-- The first of several replacements that is not acceptable is refused with the given error. -/
def FirstRefused (calls : List (Rebuild κ)) (e : EventError) : Prop :=
  ∃ before c after, calls = before ++ c :: after ∧ (∀ b ∈ before, b.Acceptable) ∧ c.Refused e

theorem not_firstRefused_nil (e : EventError) : ¬ FirstRefused ([] : List (Rebuild κ)) e := by
  rintro ⟨before, c, after, h, -, -⟩
  exact List.append_ne_nil_of_right_ne_nil before (List.cons_ne_nil c after) h.symm

/-- The first replacement is refused, or it is acceptable and a later one is. -/
theorem firstRefused_cons {c : Rebuild κ} {calls : List (Rebuild κ)} {e : EventError} :
    FirstRefused (c :: calls) e ↔ c.Refused e ∨ c.Acceptable ∧ FirstRefused calls e := by
  constructor
  · rintro ⟨before, c', after, h, hbefore, hrefused⟩
    cases before with
    | nil =>
      obtain ⟨rfl, -⟩ := List.cons.inj h
      exact .inl hrefused
    | cons b before =>
      obtain ⟨rfl, rfl⟩ := List.cons.inj h
      obtain ⟨hb, hbefore⟩ := List.forall_mem_cons.1 hbefore
      exact .inr ⟨hb, before, c', after, rfl, hbefore, hrefused⟩
  · rintro (hrefused | ⟨hc, before, c', after, rfl, hbefore, hrefused⟩)
    · exact ⟨[], c, calls, rfl, nofun, hrefused⟩
    · exact ⟨c :: before, c', after, rfl, List.forall_mem_cons.2 ⟨hc, hbefore⟩, hrefused⟩

/-- The last value given by several replacements, or the initial one if none of them gives any. -/
def lastGiven (given : Rebuild κ → Option α) (calls : List (Rebuild κ)) (initial : α) : α :=
  (calls.filterMap given).getLastD initial

@[simp]
theorem lastGiven_nil (given : Rebuild κ → Option α) (initial : α) :
    lastGiven given [] initial = initial :=
  rfl

/-- What the first replacement gives is what the others may replace. -/
theorem lastGiven_cons (given : Rebuild κ → Option α) (c : Rebuild κ) (calls : List (Rebuild κ))
    (initial : α) :
    lastGiven given (c :: calls) initial = lastGiven given calls ((given c).getD initial) := by
  unfold lastGiven
  cases hc : given c with
  | none => rw [List.filterMap_cons_none hc, Option.getD_none]
  | some a => rw [List.filterMap_cons_some hc, List.getLastD_cons, Option.getD_some]

theorem lastGiven_concat {given : Rebuild κ → Option α} {c : Rebuild κ} {a : α}
    (h : given c = some a) (calls : List (Rebuild κ)) (initial : α) :
    lastGiven given (calls ++ [c]) initial = a := by
  rw [lastGiven, List.filterMap_append, List.filterMap_cons_some h, List.filterMap_nil,
    List.getLastD_concat]

end Rebuild

/-- The settings after several replacements: each of the three is the last one given. -/
def Settings.afterAll (s : Settings) (calls : List (Rebuild κ)) : Settings where
  maxCheckInterval := Rebuild.lastGiven Rebuild.maxCheckInterval? calls s.maxCheckInterval
  threshold := Rebuild.lastGiven Rebuild.threshold? calls s.threshold
  maxIterationCount := Rebuild.lastGiven Rebuild.maxIterationCount? calls s.maxIterationCount

/-- The settings after the first replacement are those that the others change. -/
theorem Settings.afterAll_cons (s : Settings) (c : Rebuild κ) (calls : List (Rebuild κ)) :
    s.afterAll (c :: calls) = (s.afterAll [c]).afterAll calls := by
  simp only [afterAll, Rebuild.lastGiven_cons, Rebuild.lastGiven_nil]

/-- Settings that are given as a whole leave nothing of those before. -/
theorem Settings.afterAll_concat_settings (s t : Settings) (h : Handler κ)
    (calls : List (Rebuild κ)) : s.afterAll (calls ++ [.settings t h]) = t := by
  obtain ⟨spacing, threshold, count⟩ := t
  rw [afterAll, Settings.mk.injEq]
  refine ⟨?_, ?_, ?_⟩ <;>
    · apply Rebuild.lastGiven_concat
      rfl

namespace Detector

/-- The same detector with the given settings and handler at its root: a node of the same kind, with
the same indicator, the same reducer and operands, or the same original. -/
inductive Readjusted (s : Settings) (h : Handler κ) : Detector ι κ → Detector ι κ → Prop
  | atomic {i : ι} {s₀ : Settings} {h₀ : Handler κ} :
    Readjusted s h (.atomic i s₀ h₀) (.atomic i s h)
  | boolean {r : Reducer} {ds : List (Detector ι κ)} {s₀ : Settings} {h₀ : Handler κ} :
    Readjusted s h (.boolean r ds s₀ h₀) (.boolean r ds s h)
  | negate {d : Detector ι κ} {s₀ : Settings} {h₀ : Handler κ} :
    Readjusted s h (.negate d s₀ h₀) (.negate d s h)

theorem readjusted_withSettings (d : Detector ι κ) (s : Settings) (h : Handler κ) :
    Readjusted s h d (d.withSettings s h) := by
  cases d with
  | atomic => exact .atomic
  | boolean => exact .boolean
  | negate => exact .negate

@[simp]
theorem withSettings_withSettings (d : Detector ι κ) (s s' : Settings) (h h' : Handler κ) :
    (d.withSettings s h).withSettings s' h' = d.withSettings s' h' := by
  cases d <;> rfl

@[simp]
theorem withSettings_self (d : Detector ι κ) : d.withSettings d.settings d.handler = d := by
  cases d <;> rfl

/-- A replacement that succeeds has replaced what it gives. -/
theorem eq_withSettings_of_rebuild {d d' : Detector ι κ} {c : Rebuild κ}
    (h : d.rebuild c = .ok d') :
    d' = d.withSettings (d.settings.afterAll [c]) (c.handler?.getD d.handler) := by
  cases c with
  | settings | handler => exact (Except.ok.inj h).symm
  | maxCheckInterval | threshold | maxIterationCount => exact (eq_of_validated h).2

/-- A refused replacement is answered with the error that names its own value. The two settings that
it leaves alone pass validation. -/
theorem rebuild_eq_error {d : Detector ι κ} (hd : d.settings.Valid) {c : Rebuild κ}
    {e : EventError} (h : c.Refused e) : d.rebuild c = .error e := by
  cases h with
  | @maxCheckInterval duration h =>
    have hvalidate : d.settings.withMaxCheckInterval duration =
        .error (.invalidSetting .maxCheckInterval duration) := if_pos h
    rw [rebuild, withMaxCheckInterval, hvalidate]
    rfl
  | @threshold duration h =>
    have hvalidate : d.settings.withThreshold duration =
        .error (.invalidSetting .threshold duration) :=
      (if_neg (not_not.2 hd.maxCheckInterval)).trans (if_pos h)
    rw [rebuild, withThreshold, hvalidate]
    rfl
  | maxIterationCount =>
    have hvalidate : d.settings.withMaxIterationCount 0 =
        .error (.invalidSetting .maxIterationCount 0.0) :=
      (if_neg (not_not.2 hd.maxCheckInterval)).trans
        ((if_neg (not_not.2 hd.threshold)).trans (if_pos rfl))
    rw [rebuild, withMaxIterationCount, hvalidate]
    rfl

/-- An acceptable replacement succeeds, and leaves valid settings. -/
theorem exists_rebuild_eq_ok {d : Detector ι κ} (hd : d.settings.Valid) {c : Rebuild κ}
    (hc : ∀ s h, c = .settings s h → s.Valid) (h : c.Acceptable) :
    ∃ d', d.rebuild c = .ok d' ∧ d'.settings.Valid := by
  cases c with
  | settings s handler =>
    refine ⟨_, rfl, ?_⟩
    rw [settings_withSettings]
    exact hc s handler rfl
  | handler handler =>
    refine ⟨_, rfl, ?_⟩
    rw [withHandler, settings_withSettings]
    exact hd
  | maxCheckInterval duration =>
    refine ⟨_, withMaxCheckInterval_eq hd h, ?_⟩
    rw [settings_withSettings]
    exact ⟨h, hd.threshold, hd.maxIterationCount⟩
  | threshold duration =>
    refine ⟨_, withThreshold_eq hd h, ?_⟩
    rw [settings_withSettings]
    exact ⟨hd.maxCheckInterval, h, hd.maxIterationCount⟩
  | maxIterationCount count =>
    refine ⟨_, withMaxIterationCount_eq hd h, ?_⟩
    rw [settings_withSettings]
    exact ⟨hd.maxCheckInterval, hd.threshold, h⟩

/-! ### Several replacements -/

/-- Several replacements are the first one, and then the others. -/
theorem rebuildAll_cons (d : Detector ι κ) (c : Rebuild κ) (calls : List (Rebuild κ)) :
    d.rebuildAll (c :: calls) = d.rebuild c >>= fun d' => d'.rebuildAll calls :=
  List.foldlM_cons

/-- What each of several replacements preserves is preserved by all of them. -/
theorem rebuildAll_preserves {P : Detector ι κ → Prop} {d d' : Detector ι κ}
    {calls : List (Rebuild κ)}
    (hstep : ∀ c ∈ calls, ∀ {d d' : Detector ι κ}, P d → d.rebuild c = .ok d' → P d') (hd : P d)
    (h : d.rebuildAll calls = .ok d') : P d' := by
  induction calls generalizing d with
  | nil =>
    obtain rfl := Except.ok.inj h
    exact hd
  | cons c calls ih =>
    rw [rebuildAll_cons] at h
    obtain ⟨d₁, hd₁, h⟩ := exists_of_bind_eq_ok h
    exact ih (fun c hc => hstep c (List.mem_cons_of_mem _ hc)) (hstep c List.mem_cons_self hd hd₁) h

/-- Several replacements that succeed have replaced what they give. -/
theorem eq_withSettings_of_rebuildAll {d d' : Detector ι κ} {calls : List (Rebuild κ)}
    (h : d.rebuildAll calls = .ok d') :
    d' = d.withSettings (d.settings.afterAll calls)
      (Rebuild.lastGiven Rebuild.handler? calls d.handler) := by
  induction calls generalizing d with
  | nil =>
    obtain rfl : d = d' := Except.ok.inj h
    exact d.withSettings_self.symm
  | cons c calls ih =>
    rw [rebuildAll_cons] at h
    obtain ⟨d₁, hd₁, h⟩ := exists_of_bind_eq_ok h
    rw [ih h, eq_withSettings_of_rebuild hd₁, settings_withSettings, handler_withSettings,
      withSettings_withSettings, ← Settings.afterAll_cons, ← Rebuild.lastGiven_cons]

section Validity

variable {d : Detector ι κ} {calls : List (Rebuild κ)}

/-- Several replacements succeed exactly if all of them are acceptable. -/
theorem exists_rebuildAll_eq_ok_iff (hd : d.settings.Valid)
    (hcalls : ∀ s h, Rebuild.settings s h ∈ calls → s.Valid) :
    (∃ d', d.rebuildAll calls = .ok d') ↔ ∀ c ∈ calls, c.Acceptable := by
  induction calls generalizing d with
  | nil => exact ⟨nofun, fun _ => ⟨d, rfl⟩⟩
  | cons c calls ih =>
    rw [rebuildAll_cons, List.forall_mem_cons]
    by_cases hc : c.Acceptable
    · obtain ⟨d₁, hd₁, hvalid⟩ := exists_rebuild_eq_ok hd
        (fun s h hs => hcalls s h (hs ▸ List.mem_cons_self)) hc
      rw [hd₁, and_iff_right hc]
      exact ih hvalid fun s h hs => hcalls s h (List.mem_cons_of_mem c hs)
    · obtain ⟨e, he⟩ := Rebuild.exists_refused hc
      rw [rebuild_eq_error hd he]
      exact ⟨nofun, fun h => absurd h.1 hc⟩

/-- Several replacements fail with the error of the first one that is not acceptable. -/
theorem rebuildAll_eq_error_iff (hd : d.settings.Valid)
    (hcalls : ∀ s h, Rebuild.settings s h ∈ calls → s.Valid) {e : EventError} :
    d.rebuildAll calls = .error e ↔ Rebuild.FirstRefused calls e := by
  induction calls generalizing d with
  | nil => exact ⟨nofun, fun h => absurd h (Rebuild.not_firstRefused_nil e)⟩
  | cons c calls ih =>
    rw [rebuildAll_cons, Rebuild.firstRefused_cons]
    -- an acceptable call leaves valid settings, so that the next one is judged by its own value
    by_cases hc : c.Acceptable
    · obtain ⟨d₁, hd₁, hvalid⟩ := exists_rebuild_eq_ok hd
        (fun s h hs => hcalls s h (hs ▸ List.mem_cons_self)) hc
      rw [hd₁, or_iff_right (hc.not_refused e), and_iff_right hc]
      exact ih hvalid fun s h hs => hcalls s h (List.mem_cons_of_mem c hs)
    · rw [or_iff_left fun h => hc h.1]
      obtain ⟨e', he'⟩ := Rebuild.exists_refused hc
      rw [rebuild_eq_error hd he']
      constructor
      · intro h
        obtain rfl := Except.error.inj h
        exact he'
      · intro he
        rw [← rebuild_eq_error hd he', rebuild_eq_error hd he]
        rfl

end Validity

/-- Rebuilding never changes what a detector computes. For a detector with valid settings, and
replacements that give only valid settings as a whole:

* They succeed exactly if every value given on its own is usable, and otherwise they fail with the
  error that names the setting and the value of the first one that is not.
* If they succeed, then the detector is the same node as before, over the same operands or original
  or with the same indicator, and has the same value at every state. Each of its settings, and its
  handler, is the last one given, or the former one. -/
theorem rebuildAll_readjusted {S : Type} [Indicator ι S] (d : Detector ι κ)
    (hd : d.settings.Valid) (calls : List (Rebuild κ))
    (hcalls : ∀ s h, Rebuild.settings s h ∈ calls → s.Valid) :
    ((∃ d', d.rebuildAll calls = .ok d') ↔ ∀ c ∈ calls, c.Acceptable) ∧
    (∀ e, d.rebuildAll calls = .error e ↔ ∃ before c after, calls = before ++ c :: after ∧
      (∀ b ∈ before, b.Acceptable) ∧ c.Refused e) ∧
    ∀ d', d.rebuildAll calls = .ok d' →
      Readjusted
        ⟨Rebuild.lastGiven Rebuild.maxCheckInterval? calls d.settings.maxCheckInterval,
          Rebuild.lastGiven Rebuild.threshold? calls d.settings.threshold,
          Rebuild.lastGiven Rebuild.maxIterationCount? calls d.settings.maxIterationCount⟩
        (Rebuild.lastGiven Rebuild.handler? calls d.handler) d d' ∧
      ∀ s : S, d'.g s = d.g s := by
  refine ⟨exists_rebuildAll_eq_ok_iff hd hcalls, fun e => rebuildAll_eq_error_iff hd hcalls, ?_⟩
  intro d' h
  obtain rfl := eq_withSettings_of_rebuildAll h
  exact ⟨d.readjusted_withSettings _ _, d.g_withSettings _ _⟩

/-- A disjunction all of whose nodes have settings and handlers of their own. -/
def paired : Detector ComponentThreshold Empty :=
  .boolean .max
    [.atomic ⟨0, 0.5⟩ ⟨1.0, 0.5, 7⟩ .stopOnEvent,
      .negate (.atomic ⟨1, 0.5⟩ .standard (.recordAndContinue "log")) ⟨8.0, 0.5, 7⟩
        .stopOnIncreasing]
    ⟨1.0, 1e-6, 7⟩ .stopOnDecreasing

/-- The last of the values given counts, and the first of those that cannot be used. -/
theorem rebuildAll_readjusted_paired :
    (∃ d', paired.rebuildAll [.threshold 0.25, .settings ⟨2.0, 0.5, 9⟩ .stopOnEvent,
        .maxCheckInterval 4.0, .handler .stopOnIncreasing, .maxIterationCount 3] = .ok d' ∧
      Readjusted ⟨4.0, 0.5, 3⟩ .stopOnIncreasing paired d' ∧
      ∀ s : TrajectoryState, d'.g s = paired.g s) ∧
    paired.rebuildAll [.settings ⟨2.0, 0.5, 9⟩ .stopOnEvent, .maxIterationCount 0,
        .threshold (-1.0)] =
      .error (.invalidSetting .maxIterationCount 0.0) := by
  have hvalid : (⟨2.0, 0.5, 9⟩ : Settings).Valid := by decide
  constructor
  · obtain ⟨hok, -, hreadjusted⟩ := paired.rebuildAll_readjusted (by decide) [.threshold 0.25,
      .settings ⟨2.0, 0.5, 9⟩ .stopOnEvent, .maxCheckInterval 4.0, .handler .stopOnIncreasing,
      .maxIterationCount 3] (by simp [hvalid])
    obtain ⟨d', hd'⟩ := hok.2 (by decide)
    exact ⟨d', hd', hreadjusted d' hd'⟩
  · obtain ⟨-, herror, -⟩ := paired.rebuildAll_readjusted (by decide)
      [.settings ⟨2.0, 0.5, 9⟩ .stopOnEvent, .maxIterationCount 0, .threshold (-1.0)]
      (by simp [hvalid])
    exact (herror _).2 ⟨[.settings ⟨2.0, 0.5, 9⟩ .stopOnEvent], .maxIterationCount 0,
      [.threshold (-1.0)], rfl, by decide, .maxIterationCount⟩

end Detector

end TrajectoryEvents
