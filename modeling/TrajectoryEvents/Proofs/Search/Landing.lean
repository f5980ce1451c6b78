import TrajectoryEvents.Proofs.Search.Origin

/-!
# Where a bisection ends

A bisection that succeeds ends at a zero of the value, or at an epoch where the value has left the
sign that it has at the early end of the bracket. In the second case the value still had that sign
shortly before, at an epoch that was looked at: within the threshold, or at the very epoch before.

## Main definitions

* `Probe.refineCalls`: the calls that a bisection makes.
* `Lands`: where a bisection of a bracket ends.

## Main results

* `Bracket.Inside.adjacent_of_isTight`: inside a bracket of finite width, only the ends of a bracket
  of neighbouring epochs leave no room for a midpoint.
* `Detector.refine_lands`: where the bisection of a bracket ends that a search comes upon.
-/

namespace TrajectoryEvents

variable {σ S : Type}

/-! ### Signs -/

section Signs

variable {up : Bool} {v w : Float}

/-- A value that passes zero comes from the other side. -/
theorem Passes.hasSign (h : Passes up v w) : HasSign (!up) v := by
  cases up
  · exact h.1
  · exact h.1

/-- A value that passes zero, and does not end there, gets to the side it is heading for. -/
theorem Passes.hasSign_of_ne (h : Passes up v w) (h0 : ¬ (w == 0.0) = true) : HasSign up w := by
  rw [Binary64.beq_zero_iff] at h0
  cases up
  · obtain ⟨-, hw, hle⟩ := passes_false.1 h
    exact hasSign_false.2 ⟨hw, lt_of_le_of_ne hle fun heq => h0 ⟨hw, heq⟩⟩
  · obtain ⟨-, hw, hle⟩ := passes_true.1 h
    exact hasSign_true.2 ⟨hw, lt_of_le_of_ne hle fun heq => h0 ⟨hw, heq.symm⟩⟩

end Signs

/-! ### Bisections -/

/-- Inside a bracket of finite width, a bracket without room for a midpoint consists of two epochs
without any epoch between them. -/
theorem Bracket.Inside.adjacent_of_isTight {outer b : Bracket} (h : outer.Inside b)
    (hb : outer.early.Precedes outer.late) (hd : outer.width.isFinite = true) (ht : b.IsTight) :
    b.early.Adjacent b.late := by
  have hp := h.precedes
  have hwidth : b.width.isFinite = true :=
    Epoch.isFinite_durationFrom hb.left hb.right hp.left hp.right h.early h.late hp.place_lt.le hd
  exact (Epoch.adjacent_iff hp.left.isNaN hp.right.isNaN).2 (ht.place_late hp hwidth)

/-- The calls that a probe makes to narrow a bracket down. -/
def Probe.refineCalls (p : Probe σ S) (settings : Settings) (b : Bracket) (m : σ) :
    List (Call S) :=
  ((p.recorded.refine settings b).run (m, [])).2.2

/-- A probe that observes narrows brackets down as its functions say, and makes the calls that
belong to it. -/
theorem Probe.Observes.exists_refines {p : Probe σ S} {f : Epoch → S}
    {g : S → Except EventError Float} (hp : p.Observes f g) (settings : Settings) (b : Bracket)
    (m : σ) :
    ∃ r, Refines f g settings b r (p.refineCalls settings b m) ∧
      ((p.refine settings b).run m).1 = r.map fun t => (t, f t) := by
  obtain ⟨calls, hrun, r, hrefines, hr⟩ := hp.records_refine settings b m []
  rw [refineCalls, hrun]
  exact ⟨r, hrefines, hr⟩

/-- Where a bisection of the bracket `b` ends: at a zero, or on the other side of zero than the
early end. In that case it has looked at an epoch before, with the sign of the early end, to which
the end is close. -/
inductive Lands (f : Epoch → S) (g : S → Except EventError Float) (threshold : Float)
    (b : Bracket) (calls : List (Call S)) (e : Epoch) : Prop
  | zero {x : Float} (value : g (f e) = .ok x) (zero : (x == 0.0) = true) :
    Lands f g threshold b calls e
  | past {sign : Bool} {x v : Float} {p : Epoch} (value : g (f e) = .ok x)
    (early : HasSign sign b.earlyValue) (other : HasSign (!sign) x)
    (looked : p = b.early ∨ look f g p <:+: calls) (after : b.early ≤ p) (before : p < e)
    (valueBefore : g (f p) = .ok v) (same : HasSign sign v)
    (close : e.durationFrom p ≤ threshold ∨ p.Adjacent e) :
    Lands f g threshold b calls e

/-- A bisection of a bracket in which the value crosses zero, and is not NaN, lands. -/
theorem Refines.lands {f : Epoch → S} {g : S → Except EventError Float} {settings : Settings}
    {b : Bracket} {w : Float} {calls : List (Call S)} {e : Epoch}
    (h : Refines f g settings b (.ok e) calls) (hb : b.early.Precedes b.late)
    (hd : b.width.isFinite = true) (hearly : g (f b.early) = .ok b.earlyValue)
    (hlate : g (f b.late) = .ok w) (hc : Crosses b.earlyValue w)
    (hnum : ∀ t, b.early < t → t ≤ b.late → ∀ v, g (f t) = .ok v → v.isNaN = false) :
    Lands f g settings.threshold b calls e := by
  have hpassing : b.Passing (fun t => g (f t)) (decide (b.earlyValue < w)) :=
    ⟨hearly, w, hlate, hc.passes⟩
  obtain ⟨p, hlooked, hafter, hbefore, v, x, hv, hx, hpass, hclose⟩ :=
    hpassing.exists_origin hb hd hnum h.answer
  by_cases h0 : (x == 0.0) = true
  · exact .zero hx h0
  · refine .past hx hc.passes.hasSign ?_ (hlooked.imp_right h.calls.look_infix) hafter hbefore hv
      hpass.hasSign (hclose h0)
    rw [Bool.not_not]
    exact hpass.hasSign_of_ne h0

/-! ### Searches -/

namespace Detector

variable {ι κ τ : Type} [Indicator ι S] [Snapshot S] [CustomHandler κ S τ]

/-- Where a bisection ends. Along a trajectory that is a function `f` of the epoch, let a search of
a finite interval of finite duration come upon a bracket: two epochs of the interval, the first
before the second, between which the value of the detector crosses zero, and in which it is not NaN.
If the bisection of the bracket succeeds, then it ends after the early end and not after the late
one, with the state of the trajectory there, and lands. No bracket inside the given one is without
room for a midpoint, unless its ends are neighbours. -/
theorem refine_lands (d : Detector ι κ) {trajectory : Epoch → StateM τ S} {f : Epoch → S}
    (hf : ∀ t m, (trajectory t m).1 = f t) {start finish : Epoch} (hs : start.IsFinite)
    (hfin : finish.IsFinite) (hd : (finish.durationFrom start).isFinite = true) {b : Bracket}
    (hstart : start ≤ b.early) (hlt : b.early < b.late) (hfinish : b.late ≤ finish) {w : Float}
    (hearly : d.g (f b.early) = .ok b.earlyValue) (hlate : d.g (f b.late) = .ok w)
    (hc : Crosses b.earlyValue w)
    (hnum : ∀ t, b.early ≤ t → t ≤ b.late → ∀ v, d.g (f t) = .ok v → v.isNaN = false)
    {m m' : Memory τ} {e : Epoch} {s : S}
    (hrun : ((d.probe trajectory).refine d.settings b).run m = (.ok (e, s), m')) :
    b.early < e ∧ e ≤ b.late ∧ s = f e ∧
      Lands f d.g d.settings.threshold b ((d.probe trajectory).refineCalls d.settings b m) e ∧
      ∀ b', b.Inside b' → b'.IsTight → b'.early.Adjacent b'.late := by
  -- the ends of the bracket lie between those of the interval, hence are finite
  obtain ⟨-, hen, h1⟩ := Epoch.le_iff.1 hstart
  obtain ⟨hln, -, h2⟩ := Epoch.le_iff.1 hfinish
  have hplace := (Epoch.lt_iff_place hen hln).1 hlt
  have hef := hs.of_between hfin hen h1 (by omega)
  have hlf := hs.of_between hfin hln (by omega) h2
  have hb : b.early.Precedes b.late := ⟨hef, hlf, hlt⟩
  have hwidth : b.width.isFinite = true :=
    Epoch.isFinite_durationFrom hs hfin hef hlf h1 h2 hplace.le hd
  obtain ⟨r, hrefines, hr⟩ := (d.observes_probe hf).exists_refines d.settings b m
  rw [hrun] at hr
  cases r with
  | error => cases hr
  | ok t =>
    obtain ⟨rfl, rfl⟩ := Prod.mk.inj (Except.ok.inj hr)
    obtain ⟨hafter, hupTo⟩ := narrow_between hb hrefines.answer
    exact ⟨hafter, hupTo, rfl,
      hrefines.lands hb hwidth hearly hlate hc fun t h => hnum t (Epoch.le_of_lt h),
      fun b' hin ht => hin.adjacent_of_isTight hb hwidth ht⟩

/-- The first edge of the pulse is found from the sample before it. -/
theorem refine_lands_pulse :
    Lands pulse raised.g 0.5 ⟨⟨0.0⟩, -0.5, ⟨1.0⟩⟩
      ((raised.probe fun t => (pure (pulse t) : StateM Unit _)).refineCalls raised.settings
        ⟨⟨0.0⟩, -0.5, ⟨1.0⟩⟩ ⟨.empty, ()⟩) ⟨0.5⟩ := by
  have hf : ∀ t m, ((pure (pulse t) : StateM Unit _) m).1 = pulse t := fun _ _ => rfl
  have hrun : ((raised.probe fun t => (pure (pulse t) : StateM Unit _)).refine raised.settings
      ⟨⟨0.0⟩, -0.5, ⟨1.0⟩⟩).run ⟨.empty, ()⟩ = (.ok (⟨0.5⟩, pulse ⟨0.5⟩), ⟨.empty, ()⟩) := rfl
  have hnum : ∀ t, (⟨0.0⟩ : Epoch) ≤ t → t ≤ ⟨1.0⟩ → ∀ v, raised.g (pulse t) = .ok v →
      v.isNaN = false :=
    fun _ _ _ _ => isNaN_threshold_pulse (by decide) (by decide)
  have hearly : raised.g (pulse ⟨0.0⟩) = .ok (-0.5) := rfl
  have hlate : raised.g (pulse ⟨1.0⟩) = .ok 0.5 := rfl
  have hs : (⟨0.0⟩ : Epoch).IsFinite := by decide
  have hfin : (⟨2.0⟩ : Epoch).IsFinite := by decide
  have hlands := refine_lands raised hf hs hfin (by decide) (b := ⟨⟨0.0⟩, -0.5, ⟨1.0⟩⟩) (by decide)
    (by decide) (by decide) hearly hlate (by decide) hnum hrun
  exact hlands.2.2.2.1

end Detector

end TrajectoryEvents
