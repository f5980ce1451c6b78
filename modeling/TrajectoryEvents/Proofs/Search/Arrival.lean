import TrajectoryEvents.Proofs.Search.Origin

/-!
# The value at an event

An event is reported where the value has got to the side of zero it is heading for, or to the zero
itself. A value that is undefined, NaN, is on neither side, and no sample at which it is undefined
closes a crossing. A bisection, however, only asks whether the value at a midpoint is positive. On
the way up, an undefined value counts as not having arrived yet; on the way down it counts as having
arrived, so that the event may be reported at a midpoint at which the value is undefined.

## Main definitions

* `Arrives`: a value on the side of zero to which it is heading.
* `ArrivesAt`: an epoch at which the value arrives, or is taken to arrive.

## Main results

* `narrow_arrives`: a bisection ends where the value arrives, or is taken to arrive.
* `Detector.locate_arrives`: the value at the events of a search.
* `Detector.locate_undefined_dropout`: an event at which the value is undefined.
-/

namespace TrajectoryEvents

/-! ### Values -/

/-- A value on the side of zero to which it is heading, the zero itself included. -/
def Arrives (up : Bool) (v : Float) : Prop := if up then 0.0 ≤ v else v ≤ 0.0

section Values

variable {up : Bool} {v w : Float}

/-- A value that passes zero arrives on the other side. -/
theorem Passes.arrives (h : Passes up v w) : Arrives up w := by
  cases up
  · exact h.2
  · exact h.2

/-- Before it passes zero, a value is positive exactly on the way down. -/
theorem Passes.decide_pos (h : Passes up v w) : decide (0.0 < v) = !up := by
  cases up
  · exact HasSign.decide_pos (s := true) h.1
  · exact HasSign.decide_pos (s := false) h.1

/-- A zero is on both sides. -/
theorem arrives_of_zero (up : Bool) (h : (v == 0.0) = true) : Arrives up v := by
  obtain ⟨hn, hp⟩ := Binary64.beq_zero_iff.1 h
  cases up
  · exact Binary64.le_zero_iff.2 ⟨hn, hp.le⟩
  · exact Binary64.zero_le_iff.2 ⟨hn, hp.ge⟩

/-- A value that is positive on the way up, or not positive on the way down, arrives; on the way
down it may also be undefined. -/
theorem arrives_of_decide_pos (h : decide (0.0 < v) = up) :
    Arrives up v ∨ up = false ∧ v.isNaN = true := by
  cases up
  · rw [decide_eq_false_iff_not, Binary64.zero_lt_iff] at h
    cases hn : v.isNaN with
    | false => exact .inl (Binary64.le_zero_iff.2 ⟨hn, not_lt.1 fun hp => h ⟨hn, hp⟩⟩)
    | true => exact .inr ⟨rfl, rfl⟩
  · obtain ⟨hn, hp⟩ := Binary64.zero_lt_iff.1 (of_decide_eq_true h)
    exact .inl (Binary64.zero_le_iff.2 ⟨hn, hp.le⟩)

end Values

/-! ### Bisections -/

section Bisections

variable {g : Epoch → Except EventError Float} {threshold : Float} {permitted : UInt64} {n : ℕ}
  {up : Bool} {b : Bracket} {e : Epoch}

/-- An epoch at which the value arrives; on the way down, also one of the epochs `looked` at which
the value is undefined. -/
def ArrivesAt (g : Epoch → Except EventError Float) (looked : List Epoch) (up : Bool)
    (t : Epoch) : Prop :=
  ∃ v, g t = .ok v ∧ (Arrives up v ∨ up = false ∧ v.isNaN = true ∧ t ∈ looked)

/-- A bisection of a bracket in which the value passes zero ends where it arrives. On the way down,
the bisection may also end at a midpoint at which the value is undefined. -/
theorem narrow_arrives (hb : b.Passing g up) (h : narrow g threshold permitted n b = .ok e) :
    ArrivesAt g (midpoints g threshold n b) up e := by
  obtain ⟨w, hw, hpass⟩ := hb.late
  -- the early value decides which midpoints become the late end, even if it is undefined itself
  let Inv (b' : Bracket) : Prop :=
    decide (0.0 < b'.earlyValue) = !up ∧ ArrivesAt g (midpoints g threshold n b) up b'.late
  have hstep : ∀ b' v, b'.midpoint ∈ midpoints g threshold n b → Inv b' → ¬ b'.IsTight →
      g b'.midpoint = .ok v → ¬ (v == 0.0) = true → Inv (b'.half v) := by
    rintro b' v hm ⟨hearly, hlate⟩ - hv -
    unfold Bracket.half
    by_cases hs : decide (0.0 < v) = decide (0.0 < b'.earlyValue)
    · rw [if_pos hs]
      exact ⟨hs.trans hearly, hlate⟩
    · rw [if_neg hs]
      have hother : decide (0.0 < v) = up := by
        rw [hearly] at hs
        exact Bool.not_eq_not.1 hs
      exact ⟨hearly, v, hv, (arrives_of_decide_pos hother).imp_right fun h => ⟨h.1, h.2, hm⟩⟩
  obtain ⟨b', ⟨-, hlate⟩, hsettles⟩ :=
    exists_settles hstep ⟨hpass.decide_pos, w, hw, .inl hpass.arrives⟩ h
  cases hsettles with
  | narrow | tight => exact hlate
  | zero _ hv h0 => exact ⟨_, hv, .inl (arrives_of_zero up h0)⟩

end Bisections

/-! ### Scans -/

variable {σ S : Type}

/-- The midpoints at which a search with the given settings looks between two samples, the first of
which has the given value. -/
def midpointsBetween (g : Epoch → Except EventError Float) (settings : Settings) (a : Epoch)
    (v : Float) (b : Epoch) : List Epoch :=
  midpoints g settings.threshold settings.maxIterationCount.toNat ⟨a, v, b⟩

/-- An event that is found between the samples `a` and `b`, with the state of the trajectory there,
and where the value arrives, or on the way down is taken to arrive. -/
structure Arrival (f : Epoch → S) (g : S → Except EventError Float) (settings : Settings)
    (a b : Epoch) (event : Occurrence S) : Prop where
  state : event.state = f event.epoch
  arrives : ∃ v w, g (f a) = .ok v ∧ g (f b) = .ok w ∧ Passes event.increasing v w ∧
    ArrivesAt (fun t => g (f t)) (midpointsBetween (fun t => g (f t)) settings a v b)
      event.increasing event.epoch

section Runs

variable {p : Probe σ S} {f : Epoch → S} {g : S → Except EventError Float} {settings : Settings}

/-- An event that is reported of a bracket arrives. -/
theorem Refines.arrival {a b : Epoch} {v w : Float} {calls : List (Call S)} {e : Epoch}
    (hv : g (f a) = .ok v) (hw : g (f b) = .ok w) (hc : Crosses v w)
    (h : Refines f g settings ⟨a, v, b⟩ (.ok e) calls) {event : Occurrence S}
    (hm : Finding.Matches f ⟨e, decide (v < w)⟩ event) : Arrival f g settings a b event := by
  have hpassing : Bracket.Passing (fun t => g (f t)) (decide (v < w)) ⟨a, v, b⟩ :=
    ⟨hv, w, hw, hc.passes⟩
  refine ⟨hm.epoch ▸ hm.state, v, w, hv, hw, ?_, ?_⟩
  · rw [hm.increasing]
    exact hc.passes
  · rw [hm.increasing, hm.epoch]
    exact narrow_arrives hpassing h.answer

/-- Every event of a scan arrives, between two consecutive samples. -/
theorem Course.exists_arrival {ts : List Epoch} {a : Epoch} {v : Float} {calls : List (Call S)}
    {r : Except EventError (List (Occurrence S))} (h : Course p f g settings ts a v calls r)
    (hv : g (f a) = .ok v) {events : List (Occurrence S)} (hr : r = .ok events) :
    ∀ event ∈ events, ∃ a' b', [a', b'] <:+: a :: ts ∧ Arrival f g settings a' b' event := by
  -- an event of the later samples lies between two of them
  have later {a b : Epoch} {rest : List Epoch} {event : Occurrence S}
      (h : ∃ a' b', [a', b'] <:+: b :: rest ∧ Arrival f g settings a' b' event) :
      ∃ a' b', [a', b'] <:+: a :: b :: rest ∧ Arrival f g settings a' b' event := by
    obtain ⟨a', b', hsamples, harrival⟩ := h
    exact ⟨a', b', hsamples.trans (List.suffix_cons _ _).isInfix, harrival⟩
  induction h generalizing events with
  | done =>
    obtain rfl := Except.ok.inj hr
    nofun
  | failed => cases hr
  | unresolved => cases hr
  | quiet value _ _ ih => exact fun event he => later (ih value hr event he)
  | stopped value crosses refines reports =>
    obtain rfl := Except.ok.inj hr
    refine List.forall_mem_singleton.2 ⟨_, _, ⟨[], _, rfl⟩, ?_⟩
    exact refines.arrival hv value crosses reports.matches
  | @found b rest a v w calls epoch event _ r value crosses refines reports _ _ ih =>
    cases r with
    | error => cases hr
    | ok events =>
      obtain rfl := Except.ok.inj hr
      refine List.forall_mem_cons.2 ⟨⟨_, _, ⟨[], _, rfl⟩, ?_⟩, fun event' he => ?_⟩
      · exact refines.arrival hv value crosses reports.matches
      · exact later (ih value rfl event' he)

end Runs

/-! ### Searches -/

namespace Detector

variable {ι κ τ : Type} [Indicator ι S] [Snapshot S] [CustomHandler κ S τ] [Initializable ι S τ]

/-- The value at an event. Along a trajectory that is a function `f` of the epoch, let a search be
completed, and let `d'` be the detector as the search prepared it, the value of which may be
undefined. Then every event lies between two consecutive samples at which the value is defined and
between which it passes zero in the direction of the event.

* If the event goes up, then the value at its state is defined, and zero or positive.
* If the event goes down, then the value at its state is defined, and zero or negative; or else it
  is undefined, and the event lies at a midpoint between the two samples at which the search has
  looked. -/
theorem locate_arrives {d d' : Detector ι κ} {trajectory : Epoch → StateM τ S} {f : Epoch → S}
    (hf : ∀ t m, (trajectory t m).1 = f t) {start finish : Epoch} (h : ¬ finish ≤ start)
    {m m' : Memory τ} {events : List (Occurrence S)}
    (hrun : (d.locate trajectory start finish).run m = ((.ok events, d'), m')) :
    ∀ event ∈ events, ∃ a b v w x,
      [a, b] <:+: samples d.settings.maxCheckInterval start finish ∧
      d'.g (f a) = .ok v ∧ d'.g (f b) = .ok w ∧ Passes event.increasing v w ∧
      d'.g event.state = .ok x ∧
      (event.increasing = true → 0.0 ≤ x) ∧
      (event.increasing = false → x ≤ 0.0 ∨ x.isNaN = true ∧
        event.epoch ∈ midpointsBetween (fun t => d'.g (f t)) d.settings a v b) := by
  have hsearch := d.searches_locate hf h m
  simp only [prepared, hrun] at hsearch
  generalize d.calls trajectory start finish m = calls at hsearch
  cases hsearch with
  | @scanned v calls _ value course =>
    intro event he
    obtain ⟨a, b, hab, harrival⟩ := course.exists_arrival value rfl event he
    obtain ⟨v, w, hv, hw, hpass, x, hx, harrives⟩ := harrival.arrives
    refine ⟨a, b, v, w, x, hab, hv, hw, hpass, harrival.state ▸ hx, ?_, ?_⟩
    · intro hup
      rw [hup] at harrives
      exact harrives.resolve_right fun h => Bool.noConfusion h.1
    · intro hdown
      rw [hdown] at harrives
      exact harrives.imp_right And.right

/-! ### A dropout -/

/-- A state whose only component falls, and is undefined in between. -/
def dropout (t : Epoch) : TrajectoryState :=
  ⟨t, [if t < ⟨0.375⟩ then 1.0 else if t < ⟨0.875⟩ then 0.0 / 0.0 else 0.0]⟩

theorem samplesAfter_dropout : samplesAfter 1.0 ⟨1.0⟩ ⟨0.0⟩ = [⟨1.0⟩] := by
  rw [samplesAfter_of_lt _ (by decide), show nextSample 1.0 ⟨1.0⟩ ⟨0.0⟩ = ⟨1.0⟩ by decide,
    samplesAfter_of_not_lt _ (by decide)]

/-- The negation of the detector goes up, and the undefined value at the midpoint is passed over. -/
theorem run_locate_not_dropout :
    (raised.not.locate (fun t => (pure (dropout t) : StateM Unit _)) ⟨0.0⟩ ⟨1.0⟩).run
      ⟨.empty, ()⟩ =
        ((.ok [⟨⟨1.0⟩, dropout ⟨1.0⟩, true, .proceed, none⟩], raised.not), ⟨.empty, ()⟩) :=
  run_locate_eq raised.not dropout (by decide) rfl samplesAfter_dropout

/-- Going up, the value is positive at the event. -/
theorem locate_arrives_dropout :
    ∃ x, raised.not.g (dropout ⟨1.0⟩) = .ok x ∧ 0.0 ≤ x := by
  have hf : ∀ t m, ((pure (dropout t) : StateM Unit _) m).1 = dropout t := fun _ _ => rfl
  obtain ⟨-, -, -, -, x, -, -, -, -, hx, hup, -⟩ :=
    locate_arrives hf (by decide) run_locate_not_dropout _ List.mem_cons_self
  exact ⟨x, hx, hup rfl⟩

/-- The detector itself goes down, and the undefined value at the midpoint ends the bisection. -/
theorem run_locate_dropout :
    (raised.locate (fun t => (pure (dropout t) : StateM Unit _)) ⟨0.0⟩ ⟨1.0⟩).run ⟨.empty, ()⟩ =
      ((.ok [⟨⟨0.5⟩, dropout ⟨0.5⟩, false, .proceed, none⟩], raised), ⟨.empty, ()⟩) :=
  run_locate_eq raised dropout (by decide) rfl samplesAfter_dropout

/-- An event may be reported where the value of the detector is undefined. -/
theorem locate_undefined_dropout :
    raised.settings.Valid ∧ (⟨0.0⟩ : Epoch).IsFinite ∧ (⟨1.0⟩ : Epoch).IsFinite ∧
      (⟨0.0⟩ : Epoch) < ⟨1.0⟩ ∧
      ∃ events m, (raised.locate (fun t => (pure (dropout t) : StateM Unit _)) ⟨0.0⟩ ⟨1.0⟩).run
          ⟨.empty, ()⟩ = ((.ok events, raised), m) ∧
        ∃ event ∈ events, ∃ x, raised.g event.state = .ok x ∧ x.isNaN = true ∧
          ¬ 0.0 ≤ x ∧ ¬ x ≤ 0.0 := by
  refine ⟨by decide, by decide, by decide, by decide, _, _, run_locate_dropout, _,
    List.mem_cons_self, 0.0 / 0.0 - 0.5, rfl, ?_⟩
  decide

end Detector

end TrajectoryEvents
