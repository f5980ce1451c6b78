import Mathlib.Order.Nat
import TrajectoryEvents.Proofs.Search.Exactness
import TrajectoryEvents.Proofs.Search.Progress

/-!
# Enough bisections always converge

A halving leaves at most seven tenths of the exact width of a bracket, up to the smallest double, so
that two of them leave less than half of it. Two halvings for every power of two by which the
spacing of the samples exceeds the threshold are enough, then, and a few more for the roundings.
A search that permits them never fails for want of bisections, whatever the trajectory and the
values are.

## Main definitions

* `Bracket.extent`: the exact width of a bracket.
* `Bracket.Resolvable`: a number of halvings is enough, whatever the values at the midpoints are.
* `Settings.Suffices`: settings that permit enough bisections.
* `Settings.IsDoublings`: how often the threshold has to be doubled to reach the spacing.

## Main results

* `Bracket.extent_half`: what a halving leaves of the exact width.
* `Bracket.Resolvable.of_extent_le_mul`: how many halvings are enough.
* `Narrows.exists_value`, `Scans.exists_value`: with enough halvings, only a value can fail.
* `Detector.exists_value_of_suffices`: nor does a search fail otherwise.
* `Detector.locate_converges`: how many bisections are enough for a search with valid settings.
-/

namespace TrajectoryEvents

open Binary64

variable {σ S : Type}

namespace Bracket

/-- The exact width of a bracket, counted as `Binary64.value` is. -/
def extent (b : Bracket) : ℤ := b.late.value - b.early.value

/-- A number of halvings is enough to narrow a bracket down to a threshold, whatever the values at
the midpoints are. -/
def Resolvable (threshold : Float) : ℕ → Bracket → Prop
  | 0, b => b.width ≤ threshold
  | n + 1, b => b.width ≤ threshold ∨ b.IsTight ∨ ∀ v, Resolvable threshold n (b.half v)

variable {b : Bracket} {threshold : Float} {n : ℕ}

/-- The width of a bracket that is not tight does not overflow. -/
theorem isFinite_width (hb : b.early.Precedes b.late) (ht : ¬ b.IsTight) :
    b.width.isFinite = true := by
  by_contra hd
  have hinf : b.midpoint = _ := Epoch.midpoint_eq_infinity hb.left hb.right hb.place_lt.le hd
  obtain ⟨-, hbefore⟩ := midpoint_between hb ht
  rw [hinf] at hbefore
  exact absurd hbefore.left (by decide)

/-- Halving a bracket makes it narrower, by three tenths up to the smallest double, and by the
smallest double at least. -/
theorem extent_half (hb : b.early.Precedes b.late) (ht : ¬ b.IsTight) (v : Float) :
    10 * (b.half v).extent ≤ 7 * b.extent + 20 ∧ (b.half v).extent + 2 ≤ b.extent := by
  obtain ⟨hafter, hbefore⟩ := midpoint_between hb ht
  obtain ⟨hleft, hright⟩ := Epoch.midpoint_contracts hb.left hb.right (isFinite_width hb ht)
    hafter.place_lt hbefore.place_lt
  have h1 := Epoch.value_lt_value.2 hafter.place_lt
  have h2 := Epoch.value_lt_value.2 hbefore.place_lt
  have e1 : 2 ∣ b.early.value := even_value _
  have e2 : 2 ∣ b.midpoint.value := even_value _
  have e3 : 2 ∣ b.late.value := even_value _
  unfold extent Bracket.half
  split
  · change 10 * (b.late.value - b.midpoint.value) ≤ _ ∧ b.late.value - b.midpoint.value + 2 ≤ _
    exact ⟨hright, by omega⟩
  · change 10 * (b.midpoint.value - b.early.value) ≤ _ ∧ b.midpoint.value - b.early.value + 2 ≤ _
    exact ⟨hleft, by omega⟩

/-! ### How many halvings are enough -/

/-- A bracket whose exact width is at most the threshold is narrow. -/
theorem width_le (hb : b.early.Precedes b.late) (hthr : threshold.isFinite = true)
    (h : b.extent ≤ value (place threshold)) : b.width ≤ threshold := by
  obtain ⟨hn, hr⟩ := Epoch.rounds_durationFrom hb.left hb.right
  obtain ⟨htn, h1, h2⟩ := isFinite_iff.1 hthr
  exact Binary64.le_iff.2 ⟨hn, htn, hr.le_of_le_value h1.le h2.le h⟩

/-- A bracket whose exact width is at most the threshold needs no halving. -/
theorem Resolvable.of_extent_le (hb : b.early.Precedes b.late) (hthr : threshold.isFinite = true)
    (h : b.extent ≤ value (place threshold)) (n : ℕ) : b.Resolvable threshold n := by
  cases n with
  | zero => exact width_le hb hthr h
  | succ n => exact .inl (width_le hb hthr h)

/-- One halving more is enough, if the given number is enough for what a halving leaves. -/
theorem Resolvable.succ (hb : b.early.Precedes b.late)
    (h : ∀ b' : Bracket, b'.early.Precedes b'.late → 10 * b'.extent ≤ 7 * b.extent + 20 →
      b'.extent + 2 ≤ b.extent → b'.Resolvable threshold n) : b.Resolvable threshold (n + 1) := by
  by_cases ht : b.IsTight
  · exact .inr (.inl ht)
  · refine .inr (.inr fun v => ?_)
    obtain ⟨h1, h2⟩ := extent_half hb ht v
    exact h _ ((Inside.refl hb).half ht v).precedes h1 h2

/-- As many halvings as there are doubles in the width are enough. -/
theorem Resolvable.of_extent_le_two_mul (hthr : threshold.isFinite = true)
    (hpos : 2 ≤ value (place threshold)) (hb : b.early.Precedes b.late)
    (h : b.extent ≤ 2 * n + 2) : b.Resolvable threshold n := by
  induction n generalizing b with
  | zero => exact .of_extent_le hb hthr (by omega) 0
  | succ n ih => exact .succ hb fun b' hb' _ hless => ih hb' (by push_cast at h; omega)

/-- Two halvings for each power of two by which the width exceeds the threshold are enough, and
thirteen more. -/
theorem Resolvable.of_extent_le_mul (hthr : threshold.isFinite = true)
    (hpos : 2 ≤ value (place threshold)) {L : ℕ} (hn : 2 * L + 13 ≤ n)
    (hb : b.early.Precedes b.late) (h : 2 * b.extent ≤ 3 * (value (place threshold) * 2 ^ L) + 14) :
    b.Resolvable threshold n := by
  induction L generalizing n b with
  | zero =>
    obtain ⟨n, rfl⟩ := Nat.exists_eq_add_of_le' (by omega : 2 ≤ n)
    refine .succ hb fun b₁ hb₁ h₁ _ => .succ hb₁ fun b₂ hb₂ h₂ _ => ?_
    rcases le_or_gt b₂.extent (value (place threshold)) with hle | hgt
    · exact .of_extent_le hb₂ hthr hle n
    -- a width that still exceeds the threshold spans few doubles
    · refine .of_extent_le_two_mul hthr hpos hb₂ ?_
      have e1 : 2 ∣ b₂.late.value := even_value _
      have e2 : 2 ∣ b₂.early.value := even_value _
      have : 2 ∣ b₂.extent := Int.dvd_sub e1 e2
      omega
  | succ L ih =>
    obtain ⟨n, rfl⟩ := Nat.exists_eq_add_of_le' (by omega : 2 ≤ n)
    refine .succ hb fun b₁ hb₁ h₁ _ => .succ hb₁ fun b₂ hb₂ h₂ _ => ?_
    have hdouble : value (place threshold) * 2 ^ (L + 1) =
        2 * (value (place threshold) * 2 ^ L) := by ring
    exact ih (by omega) hb₂ (by omega)

/-- A bracket whose ends stand next to each other needs no second halving. -/
theorem Resolvable.of_adjacent (hb : b.early.Precedes b.late)
    (h : b.late.place = b.early.place + 1) : b.Resolvable threshold (n + 1) := by
  refine .inr (.inl ?_)
  by_contra ht
  obtain ⟨hafter, hbefore⟩ := midpoint_between hb ht
  have := hafter.place_lt
  have := hbefore.place_lt
  omega

end Bracket

/-! ### The brackets of a scan -/

/-- Two consecutive samples stand next to each other, or they are at most one and a half steps
apart. -/
theorem nextSample_extent_le {step : Float} {a finish : Epoch} (hstep : Settings.IsUsable step)
    (ha : a.IsFinite) (hf : finish.IsFinite) (h : a < finish) :
    (nextSample step finish a).place = a.place + 1 ∨
      2 * ((nextSample step finish a).value - a.value) ≤ 3 * value (place step) := by
  obtain ⟨hfin, hpos⟩ := hstep
  obtain ⟨hsn, -, hst⟩ := isFinite_iff.1 hfin
  replace hpos := (zero_lt_iff.1 hpos).2
  obtain ⟨hbf, hab, -⟩ := nextSample_between step ha hf h
  rcases nextSample_cases step ha hf h with ⟨he, hd⟩ | ⟨he, -⟩ | ⟨-, -, hp, -⟩
  -- the end is no further away than a step, up to rounding
  · right
    obtain ⟨hn, hr⟩ := Epoch.rounds_durationFrom ha hf
    rw [Binary64.lt_iff] at hd
    have hle : place (finish.durationFrom a) ≤ place step :=
      not_lt.1 fun hlt => hd ⟨hsn, hn, hlt⟩
    rw [he]
    exact hr.two_mul_le hpos (hle.trans_lt hst) hle
  -- the next sample is the exact sum, rounded
  · rw [or_iff_not_imp_left]
    intro hadj
    obtain ⟨-, ha1, -⟩ := Epoch.isFinite_iff_place.1 ha
    obtain ⟨-, hr⟩ := Epoch.rounds_shiftedBy ha hfin
    rw [← he] at hr
    exact hr.two_mul_advance_le ha1.le (by omega)
  · exact .inl hp

/-- Settings that permit enough bisections: two for every power of two by which the spacing of the
samples exceeds the threshold, and sixteen more. -/
def Settings.Suffices (s : Settings) (L : ℕ) : Prop :=
  value (place s.maxCheckInterval) ≤ value (place s.threshold) * 2 ^ L ∧
    2 * L + 16 ≤ s.maxIterationCount.toNat

/-- Every bracket of a scan can be narrowed down with settings that permit enough bisections. -/
theorem resolvable_sample {settings : Settings} (hv : settings.Valid) {L : ℕ}
    (hL : settings.Suffices L) {a finish : Epoch} (ha : a.IsFinite) (hf : finish.IsFinite)
    (h : a < finish) (v : Float) :
    (⟨a, v, nextSample settings.maxCheckInterval finish a⟩ : Bracket).Resolvable
      settings.threshold settings.maxIterationCount.toNat := by
  obtain ⟨hbf, hab, -⟩ := nextSample_between settings.maxCheckInterval ha hf h
  obtain ⟨hspacing, hcount⟩ := hL
  have hb : a.Precedes (nextSample settings.maxCheckInterval finish a) :=
    .of_place_lt ha hbf hab
  rcases nextSample_extent_le hv.maxCheckInterval ha hf h with hadj | hle
  · obtain ⟨n, hn⟩ := Nat.exists_eq_add_of_le' (by omega : 1 ≤ settings.maxIterationCount.toNat)
    rw [hn]
    exact .of_adjacent hb hadj
  · have hpos := (zero_lt_iff.1 hv.threshold.2).2
    have hsmall := gap_le_value hpos
    have hgap := (two_dvd_gap (place settings.threshold)).2
    refine .of_extent_le_mul hv.threshold.1 (by omega) (by omega : 2 * L + 13 ≤ _) hb ?_
    unfold Bracket.extent
    simp only
    omega

/-! ### Searches -/

/-- With enough halvings, a bisection fails only with the error of a value. -/
theorem Narrows.exists_value {threshold : Float} {permitted : UInt64} {n : ℕ} {b : Bracket}
    {calls : List (Call S)} {r : Except EventError (Epoch × S)}
    (h : Narrows threshold permitted n b calls r) (hb : b.Resolvable threshold n) {e : EventError}
    (he : r = .error e) : ∃ s, .value s (.error e) ∈ calls := by
  induction h with
  | narrow | tight | zero => cases he
  | exhausted wide => exact absurd hb wide
  | @failed _ _ s =>
    obtain rfl := Except.error.inj he
    exact ⟨s, by simp⟩
  | half wide inside _ ih =>
    obtain ⟨s, hs⟩ := ih ((hb.resolve_left wide).resolve_left inside _) he
    exact ⟨s, by simp [hs]⟩

/-- With settings that permit enough bisections, a scan fails only with the error of a value. -/
theorem Scans.exists_value {settings : Settings} {finish a : Epoch} {v : Float}
    {calls : List (Call S)} {r : Except EventError (List (Occurrence S))}
    (h : Scans settings finish a v calls r) (hv : settings.Valid) {L : ℕ}
    (hL : settings.Suffices L) (ha : a.IsFinite) (hf : finish.IsFinite) {e : EventError}
    (he : r = .error e) : ∃ s, .value s (.error e) ∈ calls := by
  induction h with
  | done | stopped => cases he
  | @failed _ _ s =>
    obtain rfl := Except.error.inj he
    exact ⟨s, by simp⟩
  | quiet ahead _ _ ih =>
    obtain ⟨s, hs⟩ := ih (nextSample_between _ ha hf ahead).1 he
    exact ⟨s, by simp [hs]⟩
  | unresolved ahead _ narrows =>
    obtain rfl := Except.error.inj he
    obtain ⟨s, hs⟩ := narrows.exists_value (resolvable_sample hv hL ha hf ahead _) rfl
    exact ⟨s, by simp [hs]⟩
  | @found _ _ _ _ _ _ r _ ahead _ _ _ _ ih =>
    cases r with
    | ok => cases he
    | error =>
      obtain ⟨s, hs⟩ := ih (nextSample_between _ ha hf ahead).1 he
      exact ⟨s, by simp [hs]⟩

/-- With settings that permit enough bisections, a search of a finite interval fails only with the
error of a value, whatever the trajectory is. -/
theorem Detector.exists_value_of_suffices {ι κ τ : Type} [Indicator ι S] [Snapshot S]
    [CustomHandler κ S τ] [Initializable ι S τ] {d : Detector ι κ} (hv : d.settings.Valid) {L : ℕ}
    (hL : d.settings.Suffices L) (trajectory : Epoch → StateM τ S) {start finish : Epoch}
    (hs : start.IsFinite) (hf : finish.IsFinite) (h : start < finish) {m : Memory τ}
    {e : EventError} (he : ((d.locate trajectory start finish).run m).1.1 = .error e) :
    ∃ s, .value s (.error e) ∈ d.calls trajectory start finish m := by
  have hproceeds := d.proceeds_locate trajectory (Epoch.Precedes.mk hs hf h).not_le m
  rw [he] at hproceeds
  generalize d.calls trajectory start finish m = calls at hproceeds
  cases hproceeds with
  | @failed s => exact ⟨s, by simp⟩
  | scanned scans =>
    obtain ⟨s, hs⟩ := scans.exists_value hv hL hs hf rfl
    exact ⟨s, by simp [hs]⟩

/-! ### How many bisections are enough -/

/-- The least number of times that the threshold has to be doubled, in exact arithmetic, to reach
the spacing of the samples. -/
def Settings.IsDoublings (s : Settings) (L : ℕ) : Prop :=
  IsLeast {n : ℕ | value (place s.maxCheckInterval) ≤ value (place s.threshold) * 2 ^ n} L

/-- Some number of doublings is enough. -/
theorem Settings.Valid.exists_isDoublings {s : Settings} (hv : s.Valid) :
    ∃ L, s.IsDoublings L := by
  have hthreshold : 1 ≤ value (place s.threshold) := by
    have hpos := (zero_lt_iff.1 hv.threshold.2).2
    have hgap := (two_dvd_gap (place s.threshold)).2
    have := gap_le_value hpos
    omega
  have hex : ∃ n : ℕ, value (place s.maxCheckInterval) ≤ value (place s.threshold) * 2 ^ n := by
    refine ⟨(value (place s.maxCheckInterval)).toNat, ?_⟩
    calc value (place s.maxCheckInterval)
      _ ≤ ((value (place s.maxCheckInterval)).toNat : ℤ) := Int.self_le_toNat _
      _ ≤ 2 ^ (value (place s.maxCheckInterval)).toNat := by exact_mod_cast Nat.lt_two_pow_self.le
      _ ≤ value (place s.threshold) * 2 ^ (value (place s.maxCheckInterval)).toNat :=
        le_mul_of_one_le_left (by positivity) hthreshold
  exact ⟨_, Nat.isLeast_find hex⟩

/-- The standard threshold has to be doubled thirty times. -/
theorem Settings.isDoublings_standard : Settings.standard.IsDoublings 30 := by
  refine ⟨by decide +kernel, fun n hn => ?_⟩
  by_contra hlt
  -- fewer doublings than thirty are at most twenty-nine, which are not enough
  have hpow : (2 : ℤ) ^ n ≤ 2 ^ 29 := pow_le_pow_right₀ (by decide) (by omega)
  have hpos : 0 ≤ value (place Settings.standard.threshold) := by decide +kernel
  have hle := hn.out.trans (Int.mul_le_mul_of_nonneg_left hpow hpos)
  exact absurd hle (by decide +kernel)

/-- Enough bisections always converge. Let the threshold of a detector with valid settings reach the
spacing of its samples once it is doubled `L` times, and not before; for the standard settings, `L`
is thirty. If the detector permits `2 * L + 16` bisections, as it does with the standard settings,
then a search of a finite interval fails only with an error that a value gave, whatever the
trajectory and the values are. -/
theorem Detector.locate_converges {ι κ τ : Type} [Indicator ι S] [Snapshot S] [CustomHandler κ S τ]
    [Initializable ι S τ] (d : Detector ι κ) (hv : d.settings.Valid) :
    ∃ L, d.settings.IsDoublings L ∧
      (d.settings = .standard → L = 30 ∧ 2 * L + 16 ≤ d.settings.maxIterationCount.toNat) ∧
      (2 * L + 16 ≤ d.settings.maxIterationCount.toNat →
        ∀ (trajectory : Epoch → StateM τ S) (start finish : Epoch) (m : Memory τ),
          start.IsFinite → finish.IsFinite → start < finish →
          ∀ e, ((d.locate trajectory start finish).run m).1.1 = .error e →
            ∃ s, .value s (.error e) ∈ d.calls trajectory start finish m) := by
  obtain ⟨L, hL⟩ := hv.exists_isDoublings
  refine ⟨L, hL, fun hstandard => ?_, fun hcount trajectory start finish m hs hf h e he => ?_⟩
  · rw [hstandard] at hL ⊢
    obtain rfl := hL.unique Settings.isDoublings_standard
    exact ⟨rfl, by decide⟩
  · exact exists_value_of_suffices hv ⟨hL.1, hcount⟩ trajectory hs hf h he

/-- A threshold with the standard settings. -/
def Detector.lifted : Detector ComponentThreshold Empty := ofIndicator ⟨0, 0.5⟩

/-- With the standard settings, the search for the pulse is completed, because the component has a
value everywhere. -/
theorem Detector.locate_converges_pulse :
    ∃ events, ((lifted.locate (fun t => (pure (pulse t) : StateM Unit _)) ⟨0.0⟩ ⟨2.0⟩).run
      ⟨.empty, ()⟩).1.1 = .ok events := by
  have hf : ∀ t m, ((pure (pulse t) : StateM Unit _) m).1 = pulse t := fun _ _ => rfl
  have hle : ¬ (⟨2.0⟩ : Epoch) ≤ ⟨0.0⟩ := by decide
  obtain ⟨L, -, hstandard, hconverges⟩ :=
    locate_converges (τ := Unit) lifted Settings.valid_standard
  cases hr : ((lifted.locate (fun t => (pure (pulse t) : StateM Unit _)) ⟨0.0⟩ ⟨2.0⟩).run
      ⟨.empty, ()⟩).1.1 with
  | ok events => exact ⟨events, rfl⟩
  | error e =>
    obtain ⟨s, hs⟩ :=
      hconverges (hstandard rfl).2 _ _ _ _ (by decide) (by decide) (by decide) e hr
    -- a value that fails would be one of the detector at a state of the pulse
    obtain ⟨t, -, hvalue⟩ := (lifted.searches_locate hf hle ⟨.empty, ()⟩).observes _ hs
    rw [prepared_eq lifted hf hle] at hvalue
    cases hvalue

end TrajectoryEvents
