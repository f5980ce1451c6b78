import TrajectoryEvents.Proofs.Search.Grid

/-!
# Splitting an interval at a sample

A scan compares its step against a rounded difference to decide whether to step on or to go to the
end. An interval that ends at one of its own samples still has the same samples up to there. If the
end is one step ahead, then it is where that step leads. If it is further ahead, then the rounded
difference exceeds the step: what the first step falls short of is made up for by the second.

## Main results

* `Binary64.Rounds.lt_of_two_steps`: two rounded steps are more than one, also after rounding.
* `nextSample_of_mem`: an interval that is cut off at a sample has the same next sample.
* `samplesAfter_split`: the samples of an interval are those up to one of them and those after it.
-/

namespace TrajectoryEvents

open Binary64

/-! ### Two steps -/

/-- Let two steps lead to `b` and on to `c`, each of them less than the exact step by half a gap at
most. Then the distance from `a` to `c`, or to a later place, is more than a step, also after
rounding. -/
theorem Binary64.Rounds.lt_of_two_steps {a b c m s p : ℤ} (hbc : b < c) (hcm : c ≤ m)
    (h0 : 0 < s) (h1 : 2 * value s ≤ 2 * (value b - value a) + gap b)
    (h2 : 2 * value s ≤ 2 * (value c - value b) + gap c)
    (hp : Rounds (value m - value a) p) (hs : s < top) : s < p := by
  have hB : value b + gap b ≤ value c := by
    rw [← value_succ]
    exact value_le_value.2 (by omega)
  have hC : value c ≤ value m := value_le_value.2 hcm
  -- the second step is at least half of the exact one
  have hhalf : value s ≤ 2 * (value c - value b) := by
    have hg := gap_cases (c - 1)
    have hc := value_succ (c - 1)
    rw [sub_add_cancel] at hg hc
    have : value b ≤ value (c - 1) := value_le_value.2 (by omega)
    have := (two_dvd_gap (c - 1)).2
    omega
  -- so it makes up for what the first one lacks, and for the rounding
  have hgap := value_succ s
  refine hp.lt_of_middle hs ?_
  rcases lt_or_ge s 0x10000000000000 with hlow | hhigh
  · have := value_of_le (p := s) (by omega) (by omega)
    have := value_of_le (p := s + 1) (by omega) (by omega)
    have := even_value a
    have := even_value m
    have := (two_dvd_gap b).2
    omega
  · have := mul_gap_le hhigh
    have := (two_dvd_gap s).2
    omega

variable {step : Float} {a mid finish : Epoch}

/-- A step that falls short of the end is less than the exact one by half a gap at most. -/
theorem two_mul_step_le (hstep : step.isFinite = true) (ha : a.IsFinite) (hf : finish.IsFinite)
    (h : a < finish) (hb : nextSample step finish a < finish) :
    2 * Binary64.value (Binary64.place step) ≤
      2 * ((nextSample step finish a).value - a.value) + gap (nextSample step finish a).place := by
  obtain ⟨hbf, hab, -⟩ := nextSample_between step ha hf h
  obtain ⟨-, -, hbt⟩ := Epoch.isFinite_iff_place.1 hbf
  obtain ⟨-, hr⟩ := Epoch.rounds_shiftedBy ha hstep
  have hsucc := value_succ (nextSample step finish a).place
  rcases nextSample_cases step ha hf h with ⟨he, -⟩ | ⟨he, -⟩ | ⟨-, -, hp, -, hle⟩
  · rw [he, Epoch.lt_iff_place hf.isNaN hf.isNaN] at hb
    omega
  · rw [← he] at hr
    have hbelow := hr.staysBelow.resolve_left (by omega)
    unfold StaysBelow at hbelow
    unfold Epoch.value at hbelow ⊢
    omega
  -- a step that does not lead forward is at most half the gap
  · have hle := (Epoch.le_iff.1 hle).2.2
    have hbelow := hr.staysBelow.resolve_left (by omega)
    have h1 : Binary64.value (a.shiftedBy step).place ≤ a.value := value_le_value.2 hle
    have h2 : Binary64.value ((a.shiftedBy step).place + 1) ≤
        (nextSample step finish a).value := value_le_value.2 (by omega)
    have := Epoch.value_lt_value.2 hab
    have := (two_dvd_gap (nextSample step finish a).place).2
    unfold StaysBelow at hbelow
    omega

/-- If the next sample is not the end, then the step is less than the distance to the end. -/
theorem step_lt_of_nextSample_lt (ha : a.IsFinite) (hf : finish.IsFinite) (h : a < finish)
    (hb : nextSample step finish a < finish) : step < finish.durationFrom a := by
  rcases nextSample_cases step ha hf h with ⟨he, -⟩ | ⟨-, -, hd, -⟩ | ⟨-, -, -, hd, -⟩
  · rw [he, Epoch.lt_iff_place hf.isNaN hf.isNaN] at hb
    omega
  · exact hd
  · exact hd

/-- An epoch at least two steps ahead is further away than a step. -/
theorem step_lt_durationFrom (ha : a.IsFinite) (hf : finish.IsFinite) (h : a < finish)
    (hb : nextSample step finish a < finish)
    (hc : nextSample step finish (nextSample step finish a) < finish) (hm : mid.IsFinite)
    (hcm : (nextSample step finish (nextSample step finish a)).place ≤ mid.place) :
    step < mid.durationFrom a := by
  obtain ⟨hbf, hab, -⟩ := nextSample_between step ha hf h
  obtain ⟨-, hbc, -⟩ := nextSample_between step hbf hf hb
  obtain ⟨hn, hr⟩ := Epoch.rounds_durationFrom ha hm
  obtain ⟨hsn, hdn, hlt⟩ := Binary64.lt_iff.1 (step_lt_of_nextSample_lt ha hf h hb)
  have htop := (place_bounds hdn).2
  refine Binary64.lt_iff.2 ⟨hsn, hn, ?_⟩
  rcases le_or_gt (Binary64.place step) 0 with h0 | h0
  -- the distance is at least that of two neighbours
  · have hv : Binary64.value 1 = 2 := rfl
    have hlt := Epoch.value_lt_value.2 (hab.trans (hbc.trans_le hcm))
    have ea : 2 ∣ a.value := even_value _
    have em : 2 ∣ mid.value := even_value _
    have := hr.le_of_value_le (q := 1) (by decide) (by decide) (by omega)
    omega
  · have hstep : step.isFinite = true := by
      refine isFinite_iff.2 ⟨hsn, ?_, ?_⟩ <;> unfold top <;> omega
    exact hr.lt_of_two_steps hbc hcm h0 (two_mul_step_le hstep ha hf h hb)
      (two_mul_step_le hstep hbf hf hb hc) (isFinite_iff.1 hstep).2.2

/-! ### Cutting an interval off -/

/-- The next sample does not depend on where the interval ends, as long as it ends further on than a
step and after that sample. -/
theorem nextSample_eq_of_step_lt (hd : step < finish.durationFrom a)
    (hd' : step < mid.durationFrom a) (hb : nextSample step finish a < mid) (hm : mid < finish) :
    nextSample step mid a = nextSample step finish a := by
  unfold nextSample stepped at *
  rw [if_pos hd] at hb ⊢
  rw [if_pos hd']
  by_cases hlost : a.shiftedBy step ≤ a
  · rw [if_pos hlost] at hb ⊢
    rw [if_pos hlost]
    by_cases hnext : a.nextRepresentable < finish
    · rw [if_pos hnext] at hb ⊢
      rw [if_pos hb]
    -- otherwise the next sample would be the end, which comes after `mid`
    · rw [if_neg hnext] at hb
      have := (Epoch.lt_iff.1 hb).2.2
      have := (Epoch.lt_iff.1 hm).2.2
      omega
  · rw [if_neg hlost, if_neg hlost]

/-- An interval that is cut off at the next sample has no other sample before. -/
theorem nextSample_nextSample (step : Float) (ha : a.IsFinite) (hf : finish.IsFinite)
    (h : a < finish) :
    nextSample step (nextSample step finish a) a = nextSample step finish a := by
  obtain ⟨hbf, hab, -⟩ := nextSample_between step ha hf h
  have hlt := (Epoch.lt_iff_place ha.isNaN hbf.isNaN).2 hab
  rcases nextSample_cases step ha hf h with ⟨he, -⟩ | ⟨he, -, -, hgo⟩ | ⟨-, -, hp, -⟩
  · rw [he]
    exact he
  -- the step leads forward, whatever the end is
  · rcases nextSample_cases step ha hbf hlt with ⟨he', -⟩ | ⟨he', -⟩ | ⟨-, -, -, -, hlost⟩
    · exact he'
    · exact he'.trans he.symm
    · exact absurd hlost hgo
  -- no epoch is between
  · refine nextSample_eq_finish step ha hbf hlt ?_
    obtain ⟨hfin, hforward, -⟩ := nextSample_between step ha hbf hlt
    rw [Epoch.lt_iff_place hfin.isNaN hbf.isNaN]
    omega

/-- An interval that is cut off at one of its samples has the same next sample. -/
theorem nextSample_of_mem (ha : a.IsFinite) (hf : finish.IsFinite)
    (hmem : mid ∈ samplesAfter step finish a) (hm : mid < finish) :
    nextSample step mid a = nextSample step finish a := by
  by_cases h : a < finish
  · obtain ⟨hbf, -⟩ := nextSample_between step ha hf h
    rw [samplesAfter_of_lt _ h] at hmem
    rcases List.mem_cons.1 hmem with rfl | hlater
    · exact nextSample_nextSample step ha hf h
    -- otherwise `mid` is at least two steps ahead
    · obtain ⟨hmf, hbm, -⟩ := mem_samplesAfter step hf hbf mid hlater
      have hb : nextSample step finish a < finish :=
        Epoch.lt_trans ((Epoch.lt_iff_place hbf.isNaN hmf.isNaN).2 hbm) hm
      obtain ⟨hcf, -⟩ := nextSample_between step hbf hf hb
      have hcm : (nextSample step finish (nextSample step finish a)).place ≤ mid.place := by
        rw [samplesAfter_of_lt _ hb] at hlater
        rcases List.mem_cons.1 hlater with rfl | hlater
        · exact le_rfl
        · exact (mem_samplesAfter step hf hcf mid hlater).2.1.le
      have hc : nextSample step finish (nextSample step finish a) < finish :=
        Epoch.lt_of_le_of_lt ((Epoch.le_iff_place hcf.isNaN hmf.isNaN).2 hcm) hm
      exact nextSample_eq_of_step_lt (step_lt_of_nextSample_lt ha hf h hb)
        (step_lt_durationFrom ha hf h hb hc hmf hcm)
        ((Epoch.lt_iff_place hbf.isNaN hmf.isNaN).2 hbm) hm
  · rw [samplesAfter_of_not_lt _ h] at hmem
    cases hmem

/-- The samples of an interval are those up to one of them, and those after it. -/
theorem samplesAfter_split (ha : a.IsFinite) (hf : finish.IsFinite)
    (hmem : mid ∈ samplesAfter step finish a) (hm : mid < finish) :
    samplesAfter step finish a = samplesAfter step mid a ++ samplesAfter step finish mid := by
  induction a using sampling_induction step finish with
  | next a h ih =>
    obtain ⟨hbf, -⟩ := nextSample_between step ha hf h
    obtain ⟨hmf, ham, -⟩ := mem_samplesAfter step hf ha mid hmem
    have hlt := (Epoch.lt_iff_place ha.isNaN hmf.isNaN).2 ham
    have hnext := nextSample_of_mem ha hf hmem hm
    rw [samplesAfter_of_lt _ h] at hmem ⊢
    rw [samplesAfter_of_lt _ hlt, hnext]
    rcases List.mem_cons.1 hmem with rfl | hlater
    · have hself : ¬ nextSample step finish a < nextSample step finish a := by
        rw [Epoch.lt_iff_place hmf.isNaN hmf.isNaN]
        omega
      rw [samplesAfter_of_not_lt _ hself]
      rfl
    · rw [ih hbf hlater]
      rfl
  | done a h =>
    rw [samplesAfter_of_not_lt _ h] at hmem
    cases hmem

end TrajectoryEvents
