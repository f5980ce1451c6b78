import TrajectoryEvents.Proofs.Search.Exactness

/-!
# A search finds every switch

Where the value of a detector keeps its sign except at some switches, and no two of them share an
interval between samples, a search reports one event for every switch. The event lies at or after
the switch and, unless it is the switch itself, within the threshold of it.

The value may be zero at a switch or have the sign after it already: a switch is the first epoch at
or past which the sign has changed.

## Main definitions

* `Switch`, `Switching`: a value that changes its sign at given switches only.
* `Separates`: an interval that does not contain two of the switches.
* `Locates`: an event that belongs to a switch.
* `Bracket.Switches`: a bracket with one switch in it. Halving preserves this.

## Main results

* `Bracket.Switches.half`: the half of a bracket that is kept contains the switch.
* `Bracket.Switches.located_of_narrow`: a bisection locates the switch in its bracket.
* `forall₂_locates`: along the samples, every switch is located once, by induction on them.
* `Detector.locate_complete`: a completed search reports every switch.
-/

namespace TrajectoryEvents

/-! ### Switches -/

/-- An epoch at which a value changes its sign. -/
structure Switch where
  epoch : Epoch
  /-- Whether the value is positive from there on. -/
  positive : Bool

/-- A value that has the sign `s` after the epoch `a`, and changes it at the given switches until
the interval ends. At a switch it is zero or has the sign after the switch already. -/
inductive Switching (g : Epoch → Float) (finish : Epoch) : Bool → Epoch → List Switch → Prop
  | last {s a} (sign : ∀ t, a < t → t ≤ finish → HasSign s (g t)) : Switching g finish s a []
  | switch {s a w rest} (ahead : a < w.epoch) (inside : w.epoch ≤ finish) (flips : s = !w.positive)
    (before : ∀ t, a < t → t < w.epoch → HasSign s (g t))
    (there : ∀ t, (t == w.epoch) = true → HasSign w.positive (g t) ∨ (g t == 0.0) = true)
    (later : Switching g finish w.positive w.epoch rest) :
    Switching g finish s a (w :: rest)

/-- The closed interval from `a` to `b` does not contain two of the switches. -/
def Separates (switches : List Switch) (a b : Epoch) : Prop :=
  switches.Pairwise fun w w' =>
    ¬ ((a ≤ w.epoch ∧ w.epoch ≤ b) ∧ (a ≤ w'.epoch ∧ w'.epoch ≤ b))

instance (switches : List Switch) (a b : Epoch) : Decidable (Separates switches a b) :=
  inferInstanceAs (Decidable (List.Pairwise _ _))

/-- An event that belongs to a switch: it has its direction, does not lie before it, and lies within
the threshold of it unless it is the switch itself. -/
structure Locates (threshold : Float) (w : Switch) (epoch : Epoch) (increasing : Bool) : Prop where
  increasing : increasing = w.positive
  after : w.epoch ≤ epoch
  close : epoch.durationFrom w.epoch ≤ threshold ∨ (epoch == w.epoch) = true

namespace Switching

variable {g : Epoch → Float} {finish a b : Epoch} {s : Bool} {switches : List Switch}

/-- Until the next switch a value keeps its sign. -/
theorem hasSign (h : Switching g finish s a switches) {t : Epoch} (hat : a < t) (ht : t ≤ finish)
    (hclear : ∀ w ∈ switches.head?, t < w.epoch) : HasSign s (g t) := by
  cases h with
  | last sign => exact sign t hat ht
  | switch _ _ _ before => exact before t hat (hclear _ rfl)

/-- A value that has not yet switched keeps switching as it did. -/
theorem later (h : Switching g finish s a switches) (hab : a ≤ b)
    (hclear : ∀ w ∈ switches.head?, b < w.epoch) : Switching g finish s b switches := by
  cases h with
  | last sign => exact .last fun t ht => sign t (Epoch.lt_of_le_of_lt hab ht)
  | switch _ inside flips before there rest =>
    refine .switch (hclear _ rfl) inside flips (fun t ht => ?_) there rest
    exact before t (Epoch.lt_of_le_of_lt hab ht)

/-- The next switch is past a given epoch or not. -/
theorem next_cases (h : Switching g finish s a switches) (hb : b.isNaN = false) :
    (∀ w ∈ switches.head?, b < w.epoch) ∨ ∃ w rest, switches = w :: rest ∧ w.epoch ≤ b := by
  cases h with
  | last => exact .inl nofun
  | @switch _ _ w rest ahead =>
    have hn := (Epoch.lt_iff.1 ahead).2.1
    by_cases hw : w.epoch ≤ b
    · exact .inr ⟨w, rest, rfl, hw⟩
    · left
      rintro _ ⟨⟩
      rw [Epoch.le_iff_place hn hb] at hw
      exact (Epoch.lt_iff_place hb hn).2 (by omega)

/-- What is known of the next switch. -/
theorem uncons {w : Switch} (h : Switching g finish s a (w :: switches)) :
    a < w.epoch ∧ s = !w.positive ∧ Switching g finish w.positive w.epoch switches := by
  cases h with
  | switch ahead _ flips _ _ later => exact ⟨ahead, flips, later⟩

/-- There is no switch past the end of the interval. -/
theorem eq_nil (h : Switching g finish s a switches) (ha : ¬ a < finish) : switches = [] := by
  cases h with
  | last => rfl
  | switch ahead inside => exact absurd (Epoch.lt_of_lt_of_le ahead inside) ha

end Switching

/-! ### Brackets -/

namespace Bracket

/-- A bracket with one switch in it: the value has the other sign from its early end up to the
switch, and the sign of the switch from there to its late end. -/
structure Switches (g : Epoch → Float) (w : Switch) (b : Bracket) : Prop where
  after : b.early < w.epoch
  upTo : w.epoch ≤ b.late
  early : HasSign (!w.positive) b.earlyValue
  before : ∀ t, b.early < t → t < w.epoch → HasSign (!w.positive) (g t)
  there : ∀ t, (t == w.epoch) = true → HasSign w.positive (g t) ∨ (g t == 0.0) = true
  beyond : ∀ t, w.epoch < t → t ≤ b.late → HasSign w.positive (g t)

variable {g : Epoch → Float} {w : Switch} {b : Bracket}

/-- The switch of a bracket of finite epochs is finite. -/
theorem Switches.isFinite (h : b.Switches g w) (hb : b.early.Precedes b.late) :
    w.epoch.IsFinite := by
  obtain ⟨-, hn, hlt⟩ := Epoch.lt_iff.1 h.after
  exact hb.left.of_between hb.right hn hlt.le (Epoch.le_iff.1 h.upTo).2.2

/-- An epoch inside a bracket lies before its switch, at it, or beyond it, and only at the switch
the value may be zero. -/
theorem Switches.sign (h : b.Switches g w) {t : Epoch} (h1 : b.early < t) (h2 : t ≤ b.late) :
    t < w.epoch ∧ HasSign (!w.positive) (g t) ∨
    w.epoch ≤ t ∧ (HasSign w.positive (g t) ∨ (t == w.epoch) = true ∧ (g t == 0.0) = true) := by
  obtain ⟨-, hw, -⟩ := Epoch.lt_iff.1 h.after
  obtain ⟨-, ht, -⟩ := Epoch.lt_iff.1 h1
  -- neither epoch is a NaN, so they compare as their places do
  rcases lt_trichotomy t.place w.epoch.place with hlt | heq | hgt
  · have hlt := (Epoch.lt_iff_place ht hw).2 hlt
    exact .inl ⟨hlt, h.before t h1 hlt⟩
  · have hbeq := Epoch.beq_iff_place.2 ⟨ht, hw, heq⟩
    refine .inr ⟨(Epoch.le_iff_place hw ht).2 heq.ge, ?_⟩
    exact (h.there t hbeq).imp_right fun h0 => ⟨hbeq, h0⟩
  · exact .inr ⟨(Epoch.le_iff_place hw ht).2 hgt.le,
      .inl (h.beyond t ((Epoch.lt_iff_place hw ht).2 hgt) h2)⟩

/-- The half of a bracket that is kept contains the switch. -/
theorem Switches.half (h : b.Switches g w) (hb : b.early.Precedes b.late) (ht : ¬ b.IsTight)
    (h0 : ¬ (g b.midpoint == 0.0) = true) : (b.half (g b.midpoint)).Switches g w := by
  obtain ⟨h1, h2⟩ := midpoint_between hb ht
  unfold Bracket.half
  rcases h.sign h1.lt h2.le with ⟨hlt, hsign⟩ | ⟨hge, hsign⟩
  -- before the switch, the value at the midpoint still has the early sign
  · rw [if_pos (hsign.decide_pos.trans h.early.decide_pos.symm)]
    exact { h with
      after := hlt
      early := hsign
      before := fun t ht => h.before t (Epoch.lt_trans h1.lt ht) }
  -- from the switch on it has the other one
  · replace hsign := hsign.resolve_right fun hz => h0 hz.2
    rw [if_neg (by rw [hsign.decide_pos, h.early.decide_pos]; simp)]
    exact { h with
      upTo := hge
      beyond := fun t ht htm => h.beyond t ht (Epoch.le_trans htm h2.le) }

variable {value : Epoch → Except EventError Float} {threshold : Float} {e : Epoch}

/-- The epoch that a bracket in the end determines locates the switch in it. -/
theorem Switches.located (h : b.Switches g w) (hb : b.early.Precedes b.late)
    (hd : b.width.isFinite = true)
    (hval : ∀ t, b.early < t → t ≤ b.late → value t = .ok (g t))
    (hs : b.Settles value threshold e) :
    w.epoch ≤ e ∧ (e.durationFrom w.epoch ≤ threshold ∨ (e == w.epoch) = true) := by
  have hw := h.isFinite hb
  have hafter := (Epoch.lt_iff.1 h.after).2.2
  have hupTo := (Epoch.le_iff.1 h.upTo).2.2
  cases hs with
  | narrow hnarrow =>
    -- the switch is no further from the late end than the early end is
    have hle : b.late.durationFrom w.epoch ≤ b.width :=
      Epoch.durationFrom_le_durationFrom hb.left hb.right hw hb.right hafter.le le_rfl
    exact ⟨h.upTo, .inl (Binary64.le_trans hle hnarrow)⟩
  | tight ht =>
    -- the ends are neighbours, and the switch is the later one
    have hadj := ht.place_late hb hd
    exact ⟨h.upTo, .inr (Epoch.beq_iff_place.2 ⟨hb.right.isNaN, hw.isNaN, by omega⟩)⟩
  | zero ht hv h0 =>
    obtain ⟨h1, h2⟩ := midpoint_between hb ht
    obtain rfl : g b.midpoint = _ := Except.ok.inj ((hval _ h1.lt h2.le).symm.trans hv)
    -- the value is a zero at the switch only
    rcases h.sign h1.lt h2.le with ⟨-, hsign⟩ | ⟨hge, hsign | ⟨heq, -⟩⟩
    · exact absurd h0 hsign.not_zero
    · exact absurd h0 hsign.not_zero
    · exact ⟨hge, .inr heq⟩

/-- A bisection locates the switch in its bracket. -/
theorem Switches.located_of_narrow (h : b.Switches g w) (hb : b.early.Precedes b.late)
    (hd : b.width.isFinite = true)
    (hval : ∀ t, b.early < t → t ≤ b.late → value t = .ok (g t)) {permitted : UInt64} {n : ℕ}
    (hn : narrow value threshold permitted n b = .ok e) :
    w.epoch ≤ e ∧ (e.durationFrom w.epoch ≤ threshold ∨ (e == w.epoch) = true) := by
  -- the invariant: a bracket inside the given one, with the switch in it
  have hstep : ∀ b' v, b'.midpoint ∈ midpoints value threshold n b →
      b.Inside b' ∧ b'.Switches g w → ¬ b'.IsTight →
      value b'.midpoint = .ok v → ¬ (v == 0.0) = true →
      b.Inside (b'.half v) ∧ (b'.half v).Switches g w := by
    rintro b' v - ⟨hin, hsw⟩ ht hv h0
    obtain ⟨h1, h2⟩ := midpoint_between hin.precedes ht
    obtain ⟨hlt, hle⟩ := hin.between hb h1.lt h2.le
    obtain rfl : g b'.midpoint = v := Except.ok.inj ((hval _ hlt hle).symm.trans hv)
    exact ⟨hin.half ht _, hsw.half hin.precedes ht h0⟩
  obtain ⟨b', ⟨hin, hsw⟩, hs⟩ := exists_settles hstep ⟨.refl hb, h⟩ hn
  have hd' : b'.width.isFinite = true :=
    Epoch.isFinite_durationFrom hb.left hb.right hin.precedes.left hin.precedes.right hin.early
      hin.late hin.precedes.place_lt.le hd
  refine hsw.located hin.precedes hd' (fun t h1 h2 => ?_) hs
  obtain ⟨hlt, hle⟩ := hin.between hb h1 h2
  exact hval t hlt hle

/-- At the late end of a bracket the value has switched, or is zero because the switch is there. -/
theorem Switches.late (h : b.Switches g w) (hb : b.early.Precedes b.late) :
    HasSign w.positive (g b.late) ∨ (b.late == w.epoch) = true ∧ (g b.late == 0.0) = true := by
  have hrefl : b.late ≤ b.late := (Epoch.le_iff_place hb.right.isNaN hb.right.isNaN).2 le_rfl
  rcases h.sign hb.lt hrefl with ⟨hlt, -⟩ | ⟨-, hsign⟩
  · exact absurd (Epoch.le_iff.1 h.upTo).2.2 (Epoch.lt_iff.1 hlt).2.2.not_ge
  · exact hsign

/-- The value crosses zero between the ends of a bracket with a switch in it. -/
theorem Switches.crosses (h : b.Switches g w) (hb : b.early.Precedes b.late) :
    Crosses b.earlyValue (g b.late) :=
  h.early.crosses ((h.late hb).imp_right And.right)

/-- What is found in a bracket with a switch in it belongs to the switch. -/
theorem Switches.locates (h : b.Switches g w) (hb : b.early.Precedes b.late)
    (hd : b.width.isFinite = true)
    (hval : ∀ t, b.early < t → t ≤ b.late → value t = .ok (g t)) {settings : Settings}
    (hr : refined value settings b = .ok e) :
    Locates settings.threshold w e (decide (b.earlyValue < g b.late)) := by
  obtain ⟨hafter, hclose⟩ := h.located_of_narrow hb hd hval hr
  refine ⟨?_, hafter, hclose⟩
  rw [decide_eq_decide.2 (h.crosses hb).lt_iff, h.early.decide_neg, Bool.not_not]

end Bracket

/-! ### Samples -/

section Samples

variable {g : Epoch → Float} {value : Epoch → Except EventError Float} {settings : Settings}
  {finish a b : Epoch} {s : Bool} {w : Switch} {switches : List Switch}

/-- An interval that contains a switch and does not contain two does not reach the next one. -/
theorem Separates.lt (h : Separates (w :: switches) a b)
    (hsw : Switching g finish s w.epoch switches) (hb : b.IsFinite)
    (hw : a ≤ w.epoch ∧ w.epoch ≤ b) :
    ∀ w' ∈ switches.head?, b < w'.epoch := by
  cases hsw with
  | last => nofun
  | @switch _ _ w' rest ahead =>
    rintro _ ⟨⟩
    -- if `b` reached the next switch, the interval would contain both
    have hnot := List.rel_of_pairwise_cons h List.mem_cons_self
    have hn := (Epoch.lt_iff.1 ahead).2.1
    have haw := (Epoch.le_iff.1 hw.1).2.2
    have hww := (Epoch.lt_iff.1 ahead).2.2
    by_contra hlt
    rw [Epoch.lt_iff_place hb.isNaN hn] at hlt
    refine hnot ⟨hw, Epoch.le_trans hw.1 (Epoch.le_of_lt ahead), ?_⟩
    exact (Epoch.le_iff_place hn hb.isNaN).2 (by omega)

/-- An interval that does not contain two switches and starts at one contains no later one. -/
theorem Separates.not_beq {w₀ : Switch} (h : Separates (w₀ :: w :: switches) a b)
    (haw : a < w.epoch) (hwb : w.epoch ≤ b) (hab : a.Precedes b) : ¬ (a == w₀.epoch) = true := by
  intro hbeq
  obtain ⟨ha, hw₀, heq⟩ := Epoch.beq_iff_place.1 hbeq
  have hab := hab.le
  have hnot := List.rel_of_pairwise_cons h List.mem_cons_self
  refine hnot ⟨⟨(Epoch.le_iff_place ha hw₀).2 heq.le, ?_⟩, Epoch.le_of_lt haw, hwb⟩
  rw [Epoch.le_iff] at hab ⊢
  exact ⟨hw₀, hab.2.1, heq ▸ hab.2.2⟩

/-- A bracket that reaches past one switch, but not past two, is one with a switch in it. -/
theorem Switching.bracket (h : Switching g finish s a (w :: switches)) (hb : b ≤ finish)
    (hw : w.epoch ≤ b) (hclear : ∀ w' ∈ switches.head?, b < w'.epoch) {v : Float}
    (hv : HasSign s v) : Bracket.Switches g w ⟨a, v, b⟩ := by
  cases h with
  | switch ahead inside flips before there later =>
    subst flips
    refine ⟨ahead, hw, hv, before, there, fun t hwt htb => ?_⟩
    refine later.hasSign hwt (Epoch.le_trans htb hb) fun w' hw' => ?_
    exact Epoch.lt_of_le_of_lt htb (hclear w' hw')

/-- Along the samples of an interval, every switch is located once: at the sample `a` the value
either has the sign before the switches ahead, or is zero at the last switch behind. -/
theorem forall₂_locates (hfin : finish.IsFinite) (ha : a.IsFinite)
    (hd : a < finish → (finish.durationFrom a).isFinite = true)
    (hval : ∀ t, a < t → t ≤ finish → value t = .ok (g t))
    (hsw : Switching g finish s a switches)
    (hsep : (samples settings.maxCheckInterval a finish).IsChain (Separates switches)) {v : Float}
    (hv : HasSign s v ∨ (v == 0.0) = true ∧ ∃ w : Switch, (a == w.epoch) = true ∧
      (samples settings.maxCheckInterval a finish).IsChain (Separates (w :: switches)))
    (hok : (outline value settings (samplesAfter settings.maxCheckInterval finish a) a v).failure =
      none) :
    List.Forall₂ (fun w x => Locates settings.threshold w x.epoch x.increasing) switches
      (outline value settings (samplesAfter settings.maxCheckInterval finish a) a v).found := by
  -- the induction follows the samples: what is generalized is the sign, the value and the switches
  -- that are still ahead of the sample
  induction a using sampling_induction settings.maxCheckInterval finish
    generalizing s v switches with
  | done a h =>
    rw [hsw.eq_nil h, samplesAfter_of_not_lt _ h]
    exact .nil
  | next a h ih =>
    rw [samples] at hsep hv
    rw [samplesAfter_of_lt _ h] at hok hsep hv ⊢
    obtain ⟨hb, hab, hbf⟩ := nextSample_between settings.maxCheckInterval ha hfin h
    generalize nextSample settings.maxCheckInterval finish a = b at *
    replace hab := Epoch.Precedes.of_place_lt ha hb hab
    replace hbf := (Epoch.le_iff_place hb.isNaN hfin.isNaN).2 hbf
    obtain ⟨next, hnext, hlater, hround⟩ := outline_cons_cases hok
    obtain rfl : g b = next := Except.ok.inj ((hval b hab.lt hbf).symm.trans hnext)
    -- what the induction hypothesis asks for at the next sample
    have hd' : b < finish → (finish.durationFrom b).isFinite = true := fun hlt =>
      Epoch.isFinite_durationFrom ha hfin hb hfin hab.place_lt.le le_rfl
        (Epoch.le_iff.1 hbf).2.2 (hd h)
    have hval' : ∀ t, b < t → t ≤ finish → value t = .ok (g t) := fun t hbt =>
      hval t (Epoch.lt_trans hab.lt hbt)
    obtain ⟨hsep_ab, hsep'⟩ := List.isChain_cons_cons.1 hsep
    rcases hsw.next_cases hb.isNaN with hclear | ⟨w, rest, rfl, hwb⟩
    -- no switch up to the next sample: the value still has the sign before the switches ahead
    · have hsign := hsw.hasSign hab.lt hbf hclear
      have hnot : ¬ Crosses v (g b) := by
        rcases hv with hv | ⟨hv, -⟩
        · exact hv.not_crosses hsign
        · exact not_crosses_of_zero hv
      rcases hround with ⟨-, heq⟩ | ⟨hc, -⟩
      · rw [heq]
        exact ih hb hd' hval' (hsw.later hab.le hclear) hsep' (.inl hsign) hlater
      · exact absurd hc hnot
    -- a switch up to the next sample, and no second one
    · obtain ⟨haw, hflips, hrest⟩ := hsw.uncons
      -- a zero at `a` would be a switch that shares the interval with `w`
      replace hv : HasSign s v := by
        refine hv.resolve_right ?_
        rintro ⟨-, w₀, hw₀, hsep₀⟩
        exact (List.isChain_cons_cons.1 hsep₀).1.not_beq haw hwb hab hw₀
      have hclear := hsep_ab.lt hrest hb ⟨Epoch.le_of_lt haw, hwb⟩
      have hbracket := hsw.bracket hbf hwb hclear hv
      have hwidth : (b.durationFrom a).isFinite = true :=
        Epoch.isFinite_durationFrom ha hfin ha hb le_rfl (Epoch.le_iff.1 hbf).2.2
          hab.place_lt.le (hd h)
      rcases hround with ⟨hnot, -⟩ | ⟨-, epoch, hr, heq⟩
      · exact absurd (hbracket.crosses hab) hnot
      · rw [heq]
        refine .cons (hbracket.locates hab hwidth (fun t hat htb => ?_) hr) ?_
        · exact hval t hat (Epoch.le_trans htb hbf)
        · refine ih hb hd' hval' (hrest.later hwb hclear) ?_ ?_ hlater
          · exact hsep'.imp fun _ _ => List.Pairwise.of_cons
          · exact (hbracket.late hab).imp_right fun hz => ⟨hz.2, w, hz.1, hsep'⟩

end Samples

/-! ### Searches -/

namespace Detector

variable {ι κ S τ : Type} [Indicator ι S] [Snapshot S] [CustomHandler κ S τ]
  [Initializable ι S τ]

/-- A completed search reports every switch. Along a trajectory that is a function `f` of the epoch,
let a search of a finite interval of finite duration be completed without a decision to stop, and
let the value of the detector, as the search prepared it, be a function `g` of the epoch that
changes its sign at the given switches only. If no closed interval between two consecutive samples
contains two of them, then the events correspond to the switches, in order: each has the direction
of its switch, does not lie before it, and lies within the threshold of it or at the very same
epoch. -/
theorem locate_complete {d d' : Detector ι κ} {trajectory : Epoch → StateM τ S} {f : Epoch → S}
    (hf : ∀ t m, (trajectory t m).1 = f t) {start finish : Epoch} (hs : start.IsFinite)
    (hfin : finish.IsFinite) (h : start < finish)
    (hd : (finish.durationFrom start).isFinite = true) {m m' : Memory τ}
    {events : List (Occurrence S)}
    (hrun : (d.locate trajectory start finish).run m = ((.ok events, d'), m'))
    (hstop : ∀ e ∈ events, e.action ≠ .stop) {g : Epoch → Float}
    (hg : ∀ t, start ≤ t → t ≤ finish → d'.g (f t) = .ok (g t)) {sign : Bool}
    {switches : List Switch} (hstart : HasSign sign (g start))
    (hsw : Switching g finish sign start switches)
    (hsep : (samples d.settings.maxCheckInterval start finish).IsChain (Separates switches)) :
    List.Forall₂ (fun w e => Locates d.settings.threshold w e.epoch e.increasing)
      switches events := by
  have hp : start.Precedes finish := ⟨hs, hfin, h⟩
  have hrefl : start ≤ start := (Epoch.le_iff_place hs.isNaN hs.isNaN).2 le_rfl
  -- the findings of the outline locate the switches, and the events are what became of them
  obtain ⟨-, value, hvalue, hreported⟩ := exists_reported hf hp.not_le hrun
  obtain rfl : g start = value := Except.ok.inj ((hg start hrefl hp.le).symm.trans hvalue)
  obtain ⟨hfailure, hmatches⟩ := hreported.of_ok hstop
  have hlocates := forall₂_locates hfin hs (fun _ => hd)
    (fun t hst htf => hg t (Epoch.le_of_lt hst) htf) hsw hsep (.inl hstart) hfailure
  refine forall₂_comp ?_ hlocates hmatches
  intro w x e hx hm
  rw [hm.epoch, hm.increasing]
  exact hx

/-- The value along the pulse. -/
def pulseValue (t : Epoch) : Float :=
  (if t < ⟨0.25⟩ then 0.0 else if t < ⟨1.7⟩ then 1.0 else 0.0) - 0.5

/-- The value is positive from the first edge up to the second and negative elsewhere. -/
theorem hasSign_pulseValue {t : Epoch} (ht : t.isNaN = false) {positive : Bool}
    (h : decide (Epoch.place ⟨0.25⟩ ≤ t.place ∧ t.place < Epoch.place ⟨1.7⟩) = positive) :
    HasSign positive (pulseValue t) := by
  subst h
  simp only [pulseValue, Epoch.lt_iff_place ht (rfl : Epoch.isNaN ⟨0.25⟩ = false),
    Epoch.lt_iff_place ht (rfl : Epoch.isNaN ⟨1.7⟩ = false)]
  -- before the first edge, between the edges, and from the second edge on
  by_cases h1 : t.place < Epoch.place ⟨0.25⟩
  · simp only [h1, not_le.2 h1, if_true, false_and]
    decide
  by_cases h2 : t.place < Epoch.place ⟨1.7⟩
  · simp only [h1, h2, not_lt.1 h1, if_true, if_false, and_self]
    decide
  · simp only [h1, h2, if_false, and_false]
    decide

/-- The edges of the pulse are the only switches. -/
theorem switching_pulse :
    Switching pulseValue ⟨2.0⟩ false ⟨0.0⟩ [⟨⟨0.25⟩, true⟩, ⟨⟨1.7⟩, false⟩] := by
  have hedges : Epoch.place ⟨0.25⟩ < Epoch.place ⟨1.7⟩ := by decide
  refine .switch (by decide) (by decide) rfl ?_ ?_ <|
    .switch (by decide) (by decide) rfl ?_ ?_ <| .last ?_
  · intro t _ (ht : t < ⟨0.25⟩)
    obtain ⟨hn, -, hlt⟩ := Epoch.lt_iff.1 ht
    exact hasSign_pulseValue hn (decide_eq_false (by omega))
  · intro t (ht : (t == ⟨0.25⟩) = true)
    obtain ⟨hn, -, heq⟩ := Epoch.beq_iff_place.1 ht
    exact .inl (hasSign_pulseValue hn (decide_eq_true (by omega)))
  · intro t (ht : ⟨0.25⟩ < t) (ht' : t < ⟨1.7⟩)
    obtain ⟨-, hn, hlt⟩ := Epoch.lt_iff.1 ht
    have hlt' := (Epoch.lt_iff.1 ht').2.2
    exact hasSign_pulseValue hn (decide_eq_true (by omega))
  · intro t (ht : (t == ⟨1.7⟩) = true)
    obtain ⟨hn, -, heq⟩ := Epoch.beq_iff_place.1 ht
    exact .inl (hasSign_pulseValue hn (decide_eq_false (by omega)))
  · intro t (ht : ⟨1.7⟩ < t) _
    obtain ⟨-, hn, hlt⟩ := Epoch.lt_iff.1 ht
    exact hasSign_pulseValue hn (decide_eq_false (by omega))

/-- Both edges of the pulse are located. -/
theorem locate_complete_pulse :
    List.Forall₂ (fun w (e : Occurrence TrajectoryState) => Locates 0.5 w e.epoch e.increasing)
      [⟨⟨0.25⟩, true⟩, ⟨⟨1.7⟩, false⟩]
      [⟨⟨0.5⟩, pulse ⟨0.5⟩, true, .proceed, none⟩,
        ⟨⟨2.0⟩, pulse ⟨2.0⟩, false, .proceed, none⟩] := by
  have hf : ∀ t m, ((pure (pulse t) : StateM Unit _) m).1 = pulse t := fun _ _ => rfl
  have hg : ∀ t : Epoch, ⟨0.0⟩ ≤ t → t ≤ ⟨2.0⟩ → raised.g (pulse t) = .ok (pulseValue t) :=
    fun _ _ _ => rfl
  have hsep : (samples 1.0 ⟨0.0⟩ ⟨2.0⟩).IsChain
      (Separates [⟨⟨0.25⟩, true⟩, ⟨⟨1.7⟩, false⟩]) := by
    rw [samples, samplesAfter_pulse]
    decide
  exact locate_complete hf (by decide) (by decide) (by decide) (by decide) run_locate_pulse
    (by simp) hg (by decide) switching_pulse hsep

end Detector

end TrajectoryEvents
