import Mathlib.Algebra.Ring.Parity
import TrajectoryEvents.Proofs.Search.Exactness

/-!
# The directions of events alternate

After a crossing the value is on the other side of zero, and the next crossing starts from there.
Two crossings in the same direction can follow each other only if the first one ends on a zero
exactly: leaving a zero is not a crossing, so the value may go back unnoticed.

## Main results

* `hasSign_head?_crossings`: up to the first crossing a value keeps its sign.
* `isChain_crossings`: a crossing that does not end on a zero is followed by one in the other
  direction.
* `odd_length_crossings`: an odd number of crossings leads to the other side.
* `Detector.locate_alternates`: the directions of events alternate except through an exact zero.
-/

namespace TrajectoryEvents

/-! ### Signs along a crossing -/

namespace HasSign

variable {s : Bool} {v w : Float}

/-- A value has one sign only. -/
theorem not_opposite (h : HasSign s v) : ¬ HasSign (!s) v := by
  intro h'
  have := h.decide_pos.symm.trans h'.decide_pos
  cases s <;> cases this

/-- Unless it crosses zero, a value keeps its sign. -/
theorem of_not_crosses (hv : HasSign s v) (hw : w.isNaN = false) (h : ¬ Crosses v w) :
    HasSign s w := by
  rw [crosses_iff] at h
  cases s
  · obtain ⟨hn, hp⟩ := hasSign_false.1 hv
    exact hasSign_false.2 ⟨hw, by simp only [hn, hw, true_and] at h; omega⟩
  · obtain ⟨hn, hp⟩ := hasSign_true.1 hv
    exact hasSign_true.2 ⟨hw, by simp only [hn, hw, true_and] at h; omega⟩

/-- A value that crosses zero ends on the other side, or on the zero. -/
theorem of_crosses (hv : HasSign s v) (h : Crosses v w) :
    HasSign (!s) w ∨ (w == 0.0) = true := by
  obtain ⟨-, hw, h⟩ := crosses_iff.1 h
  rw [Binary64.beq_zero_iff]
  cases s
  · have hp := (hasSign_false.1 hv).2
    rw [Bool.not_false, hasSign_true]
    simp only [hw, true_and]
    omega
  · have hp := (hasSign_true.1 hv).2
    rw [Bool.not_true, hasSign_false]
    simp only [hw, true_and]
    omega

end HasSign

/-- A number that is not zero is on one side or the other. -/
theorem hasSign_or {v : Float} (hv : v.isNaN = false) (h0 : ¬ (v == 0.0) = true) (s : Bool) :
    HasSign s v ∨ HasSign (!s) v := by
  rw [Binary64.beq_zero_iff] at h0
  cases s
  · rw [Bool.not_false, hasSign_false, hasSign_true]
    simp only [hv, true_and] at h0 ⊢
    omega
  · rw [Bool.not_true, hasSign_false, hasSign_true]
    simp only [hv, true_and] at h0 ⊢
    omega

/-- A crossing starts from a value with a sign. -/
theorem Crosses.exists_hasSign {v w : Float} (h : Crosses v w) : ∃ s, HasSign s v := by
  rcases h with ⟨h, -⟩ | ⟨h, -⟩
  · exact ⟨false, h⟩
  · exact ⟨true, h⟩

/-! ### Signs along a list of samples -/

variable {a : Sample} {points rest : List Sample} {s : Bool}

/-- A crossing is a pair of consecutive samples between which the value crosses zero. -/
theorem mem_crossings {ab : Sample × Sample} (h : ab ∈ crossings points) :
    [ab.1, ab.2] <:+: points ∧ Crosses ab.1.value ab.2.value := by
  induction points with
  | nil => cases h
  | cons a rest ih =>
    cases rest with
    | nil => cases h
    | cons b rest =>
      have later (h : ab ∈ crossings (b :: rest)) :
          [ab.1, ab.2] <:+: a :: b :: rest ∧ Crosses ab.1.value ab.2.value :=
        ⟨(ih h).1.trans (List.suffix_cons _ _).isInfix, (ih h).2⟩
      rw [crossings_cons_cons] at h
      split at h
      next hc =>
        rcases List.mem_cons.1 h with rfl | h
        · exact ⟨⟨[], rest, rfl⟩, hc⟩
        · exact later h
      next => exact later h

/-- Up to the first crossing a value keeps its sign. -/
theorem hasSign_head?_crossings (hs : HasSign s a.value)
    (hnum : ∀ p ∈ rest, p.value.isNaN = false) :
    ∀ ab ∈ (crossings (a :: rest)).head?, HasSign s ab.1.value := by
  induction rest generalizing a with
  | nil => nofun
  | cons b rest ih =>
    obtain ⟨hb, hrest⟩ := List.forall_mem_cons.1 hnum
    rw [crossings_cons_cons]
    by_cases hc : Crosses a.value b.value
    · rw [if_pos hc]
      rintro _ ⟨⟩
      exact hs
    · rw [if_neg hc]
      exact ih (hs.of_not_crosses hb hc) hrest

/-- A crossing that does not end on a zero is followed by one in the other direction. -/
theorem isChain_crossings (hnum : ∀ p ∈ points, p.value.isNaN = false) :
    (crossings points).IsChain fun ab cd =>
      (ab.2.value == 0.0) = true ∨ ∃ s, HasSign s ab.1.value ∧ HasSign (!s) cd.1.value := by
  induction points with
  | nil => exact .nil
  | cons a rest ih =>
    cases rest with
    | nil => exact .nil
    | cons b rest =>
      have hrest := (List.forall_mem_cons.1 hnum).2
      rw [crossings_cons_cons]
      by_cases hc : Crosses a.value b.value
      · rw [if_pos hc, List.isChain_cons]
        refine ⟨fun cd hcd => ?_, ih hrest⟩
        obtain ⟨s, hs⟩ := hc.exists_hasSign
        -- from the other side, the value keeps its sign up to the next crossing
        rcases hs.of_crosses hc with hb | h0
        · have hcd := hasSign_head?_crossings hb (List.forall_mem_cons.1 hrest).2 cd hcd
          exact .inr ⟨s, hs, hcd⟩
        · exact .inl h0
      · rw [if_neg hc]
        exact ih hrest

/-- An odd number of crossings leads to the other side, if no sample is a zero. -/
theorem odd_length_crossings (hs : HasSign s a.value)
    (hrest : ∀ p ∈ rest, p.value.isNaN = false ∧ ¬ (p.value == 0.0) = true) :
    ∀ last ∈ (a :: rest).getLast?,
      (Odd (crossings (a :: rest)).length ↔ HasSign (!s) last.value) := by
  induction rest generalizing a s with
  | nil =>
    rintro _ ⟨⟩
    exact iff_of_false (by simp [crossings]) hs.not_opposite
  | cons b rest ih =>
    obtain ⟨⟨hb, hb0⟩, hlater⟩ := List.forall_mem_cons.1 hrest
    intro last hlast
    rw [List.getLast?_cons_cons] at hlast
    rw [crossings_cons_cons]
    by_cases hc : Crosses a.value b.value
    -- from the other side, an odd number of further crossings leads back
    · have hback := ih ((hs.of_crosses hc).resolve_right hb0) hlater last hlast
      obtain ⟨hn, hn0⟩ := hrest last (List.mem_of_getLast? hlast)
      rw [Bool.not_not] at hback
      rw [if_pos hc, List.length_cons, Nat.odd_add_one, hback]
      exact ⟨(hasSign_or hn hn0 s).resolve_left, fun h h' => h'.not_opposite h⟩
    · rw [if_neg hc]
      exact ih (hs.of_not_crosses hb hc) hlater last hlast

/-! ### Events -/

/-- Lists related element by element: what holds of consecutive elements of one passes to the
other. -/
theorem isChain_of_forall₂ {α β : Type} {R : α → β → Prop} {P : α → α → Prop} {Q : β → β → Prop}
    (hstep : ∀ a a' b b', R a b → R a' b' → P a a' → Q b b') {as : List α} {bs : List β}
    (hR : List.Forall₂ R as bs) (hP : as.IsChain P) : bs.IsChain Q := by
  induction hR with
  | nil => exact .nil
  | @cons a b as bs hab hrest ih =>
    rw [List.isChain_cons] at hP ⊢
    refine ⟨fun b' hb' => ?_, ih hP.2⟩
    cases hrest with
    | nil => cases hb'
    | cons ha'b' =>
      obtain rfl := Option.some.inj hb'
      exact hstep _ _ _ _ hab ha'b' (hP.1 _ rfl)

variable {S : Type} {f : Epoch → S} {events : List (Occurrence S)}

/-- What resolves a crossing goes up exactly if the value comes from below. -/
theorem Resolves.increasing_eq {ab : Sample × Sample} {event : Occurrence S}
    (h : Resolves f ab event) (hs : HasSign s ab.1.value) : event.increasing = !s :=
  h.increasing.trans hs.decide_neg

/-- Of two consecutive events in the same direction, the first one ends on a zero. -/
theorem isChain_of_resolves (hnum : ∀ p ∈ points, p.value.isNaN = false)
    (h : List.Forall₂ (Resolves f) (crossings points) events) :
    events.IsChain fun e e' => e.increasing = e'.increasing →
      ∃ a b, [a, b] <:+: points ∧ a.epoch < e.epoch ∧ e.epoch ≤ b.epoch ∧
        (b.value == 0.0) = true := by
  have hchain := (isChain_crossings hnum).imp_of_mem_imp
    (S := fun ab cd => ab ∈ crossings points ∧ ((ab.2.value == 0.0) = true ∨
      ∃ s, HasSign s ab.1.value ∧ HasSign (!s) cd.1.value)) fun ab cd hab _ h => ⟨hab, h⟩
  refine isChain_of_forall₂ ?_ h hchain
  rintro ab cd e e' he he' ⟨hab, h0 | ⟨s, hs, hs'⟩⟩ hsame
  · exact ⟨_, _, (mem_crossings hab).1, he.after, he.upTo, h0⟩
  -- otherwise the two events come from opposite sides
  · rw [he.increasing_eq hs, he'.increasing_eq hs'] at hsame
    cases s <;> cases hsame

/-- The first event comes from the side on which the value starts. -/
theorem increasing_head?_of_resolves (hs : HasSign s a.value)
    (hnum : ∀ p ∈ rest, p.value.isNaN = false)
    (h : List.Forall₂ (Resolves f) (crossings (a :: rest)) events) :
    ∀ e ∈ events.head?, e.increasing = !s := by
  have hhead := hasSign_head?_crossings hs hnum
  generalize crossings (a :: rest) = pairs at h hhead
  cases h with
  | nil => nofun
  | cons he =>
    rintro _ ⟨⟩
    exact he.increasing_eq (hhead _ rfl)

namespace Detector

variable {ι κ τ : Type} [Indicator ι S] [Snapshot S] [CustomHandler κ S τ] [Initializable ι S τ]

/-- The events of a completed search resolve the crossings between its samples. -/
private theorem exists_resolves {d d' : Detector ι κ} {trajectory : Epoch → StateM τ S}
    (hf : ∀ t m, (trajectory t m).1 = f t) {start finish : Epoch} (h : start.Precedes finish)
    {m m' : Memory τ} {events : List (Occurrence S)}
    (hrun : (d.locate trajectory start finish).run m = ((.ok events, d'), m'))
    (hstop : ∀ e ∈ events, e.action ≠ .stop) :
    ∃ (v : Float) (points : List Sample),
      points.map Sample.epoch = samplesAfter d.settings.maxCheckInterval finish start ∧
      (∀ p ∈ ⟨start, v⟩ :: points, d'.g (f p.epoch) = .ok p.value) ∧
      List.Forall₂ (Resolves f) (crossings (⟨start, v⟩ :: points)) events := by
  obtain ⟨-, v, hv, hreported⟩ := exists_reported hf h.not_le hrun
  obtain ⟨hfailure, hmatches⟩ := hreported.of_ok hstop
  have hchain := isChain_precedes_samples d.settings.maxCheckInterval h.right h.left
  obtain ⟨points, hmap, hvalues, hbetween⟩ := exists_between v hchain hfailure
  refine ⟨v, points, hmap, List.forall_mem_cons.2 ⟨hv, hvalues⟩, ?_⟩
  refine forall₂_comp ?_ hbetween hmatches
  exact fun _ _ _ => Finding.Between.resolves

/-- The directions of events alternate except through an exact zero. Along a trajectory that is a
function `f` of the epoch, let a search of a finite interval be completed without a decision to
stop, and let `d'` be the detector as the search prepared it, the value of which is not NaN at any
sample.

* If two consecutive events have the same direction, then the value is exactly zero at the sample
  that closes the interval of the first one.
* Hence, if the value is zero at no sample, the directions strictly alternate, the first event goes
  up exactly if the value is negative at the start, and the number of events is odd exactly if the
  values at the start and at the end are on opposite sides of zero. -/
theorem locate_alternates {d d' : Detector ι κ} {trajectory : Epoch → StateM τ S}
    (hf : ∀ t m, (trajectory t m).1 = f t) {start finish : Epoch} (hs : start.IsFinite)
    (hfin : finish.IsFinite) (h : start < finish) {m m' : Memory τ} {events : List (Occurrence S)}
    (hrun : (d.locate trajectory start finish).run m = ((.ok events, d'), m'))
    (hstop : ∀ e ∈ events, e.action ≠ .stop)
    (hnum : ∀ t ∈ samples d.settings.maxCheckInterval start finish, ∀ v,
      d'.g (f t) = .ok v → v.isNaN = false) :
    (events.IsChain fun e e' => e.increasing = e'.increasing →
      ∃ a b, [a, b] <:+: samples d.settings.maxCheckInterval start finish ∧
        a < e.epoch ∧ e.epoch ≤ b ∧ ∃ w, d'.g (f b) = .ok w ∧ (w == 0.0) = true) ∧
    ((∀ t ∈ samples d.settings.maxCheckInterval start finish, ∀ v,
        d'.g (f t) = .ok v → ¬ (v == 0.0) = true) →
      (events.IsChain fun e e' => e'.increasing = !e.increasing) ∧
      ∃ v w, d'.g (f start) = .ok v ∧ d'.g (f finish) = .ok w ∧
        (∀ e ∈ events.head?, e.increasing = decide (v < 0.0)) ∧
        (Odd events.length ↔ ∃ s, HasSign s v ∧ HasSign (!s) w)) := by
  obtain ⟨v, points, hmap, hvalues, hresolves⟩ := exists_resolves hf ⟨hs, hfin, h⟩ hrun hstop
  have hepochs : ((⟨start, v⟩ :: points : List Sample).map Sample.epoch) =
      samples d.settings.maxCheckInterval start finish := by simp [samples, hmap]
  have hmem {p : Sample} (hp : p ∈ (⟨start, v⟩ :: points : List Sample)) :
      p.epoch ∈ samples d.settings.maxCheckInterval start finish :=
    hepochs ▸ List.mem_map_of_mem hp
  have hnumber : ∀ p ∈ (⟨start, v⟩ :: points : List Sample), p.value.isNaN = false :=
    fun p hp => hnum _ (hmem hp) _ (hvalues p hp)
  have hsame := isChain_of_resolves hnumber hresolves
  refine ⟨?_, fun hzero => ?_⟩
  · refine hsame.imp fun e e' h heq => ?_
    obtain ⟨a, b, hab, hafter, hupTo, h0⟩ := h heq
    refine ⟨_, _, ?_, hafter, hupTo, _, hvalues b (hab.subset (by simp)), h0⟩
    exact hepochs ▸ hab.map Sample.epoch
  have hsigned : ∀ p ∈ (⟨start, v⟩ :: points : List Sample),
      p.value.isNaN = false ∧ ¬ (p.value == 0.0) = true :=
    fun p hp => ⟨hnumber p hp, hzero _ (hmem hp) _ (hvalues p hp)⟩
  obtain ⟨⟨hn, h0⟩, hrest⟩ := List.forall_mem_cons.1 hsigned
  obtain ⟨s, hsign⟩ : ∃ s, HasSign s v := (hasSign_or hn h0 true).elim (⟨_, ·⟩) (⟨_, ·⟩)
  -- the last sample is the end of the interval
  obtain ⟨last, hlast, rfl⟩ : ∃ last ∈ (⟨start, v⟩ :: points : List Sample).getLast?,
      last.epoch = finish := by
    have hfinish := getLast?_samples d.settings.maxCheckInterval hfin hs h
    rw [← hepochs, List.getLast?_map, Option.map_eq_some_iff] at hfinish
    exact hfinish
  refine ⟨?_, v, last.value, hvalues _ List.mem_cons_self,
    hvalues _ (List.mem_of_getLast? hlast), ?_, ?_⟩
  · refine hsame.imp fun e e' h => ?_
    by_contra hne
    obtain ⟨a, b, hab, -, -, hb⟩ := h (Bool.eq_not.not_left.1 hne).symm
    exact (hsigned b (hab.subset (by simp))).2 hb
  · intro e he
    have hnum : ∀ p ∈ points, p.value.isNaN = false := fun p hp => (hrest p hp).1
    rw [hsign.decide_neg]
    exact increasing_head?_of_resolves (a := ⟨start, v⟩) hsign hnum hresolves e he
  · have hodd := odd_length_crossings (a := ⟨start, v⟩) hsign hrest last hlast
    rw [← hresolves.length_eq, hodd]
    refine ⟨fun h => ⟨s, hsign, h⟩, ?_⟩
    rintro ⟨s', hs', h⟩
    obtain rfl : s' = s := hs'.decide_pos.symm.trans hsign.decide_pos
    exact h

/-- A state whose only component touches the threshold of `raised`, and later passes it. -/
def touch (t : Epoch) : TrajectoryState :=
  ⟨t, [if t < ⟨0.75⟩ then 0.0 else if t < ⟨1.25⟩ then 0.5 else if t < ⟨2.25⟩ then 0.0 else 1.0]⟩

theorem samplesAfter_touch : samplesAfter 1.0 ⟨3.0⟩ ⟨0.0⟩ = [⟨1.0⟩, ⟨2.0⟩, ⟨3.0⟩] := by
  rw [samplesAfter_of_lt _ (by decide), show nextSample 1.0 ⟨3.0⟩ ⟨0.0⟩ = ⟨1.0⟩ by decide,
    samplesAfter_of_lt _ (by decide), show nextSample 1.0 ⟨3.0⟩ ⟨1.0⟩ = ⟨2.0⟩ by decide,
    samplesAfter_of_lt _ (by decide), show nextSample 1.0 ⟨3.0⟩ ⟨2.0⟩ = ⟨3.0⟩ by decide,
    samplesAfter_of_not_lt _ (by decide)]

/-- The component rises to the threshold and falls back unnoticed, so it rises twice. -/
theorem run_locate_touch :
    (raised.locate (fun t => (pure (touch t) : StateM Unit _)) ⟨0.0⟩ ⟨3.0⟩).run ⟨.empty, ()⟩ =
      ((.ok [⟨⟨1.0⟩, touch ⟨1.0⟩, true, .proceed, none⟩,
        ⟨⟨2.5⟩, touch ⟨2.5⟩, true, .proceed, none⟩], raised), ⟨.empty, ()⟩) :=
  run_locate_eq raised touch (by decide) rfl samplesAfter_touch

/-- The component rises twice through an exact zero, and the pulse rises once and falls once. -/
theorem locate_alternates_touch :
    (∃ a b, [a, b] <:+: samples 1.0 ⟨0.0⟩ ⟨3.0⟩ ∧ a < ⟨1.0⟩ ∧ ⟨1.0⟩ ≤ b ∧
      ∃ w, raised.g (touch b) = .ok w ∧ (w == 0.0) = true) ∧
    ∃ v w, raised.g (pulse ⟨0.0⟩) = .ok v ∧ raised.g (pulse ⟨2.0⟩) = .ok w ∧
      true = decide (v < 0.0) ∧ (Odd 2 ↔ ∃ s, HasSign s v ∧ HasSign (!s) w) := by
  have hf (f : Epoch → TrajectoryState) :
      ∀ t m, ((pure (f t) : StateM Unit _) m).1 = f t := fun _ _ => rfl
  have htouch : ∀ t ∈ samples 1.0 ⟨0.0⟩ ⟨3.0⟩, ∀ v, raised.g (touch t) = .ok v →
      v.isNaN = false := by
    rw [samples, samplesAfter_touch]
    simp only [List.forall_mem_cons, List.not_mem_nil, false_imp_iff, implies_true, and_true]
    refine ⟨?_, ?_, ?_, ?_⟩ <;> rintro v hv <;> obtain rfl := Except.ok.inj hv <;> decide
  have hpulse : ∀ t ∈ samples 1.0 ⟨0.0⟩ ⟨2.0⟩, ∀ v, raised.g (pulse t) = .ok v →
      v.isNaN = false ∧ ¬ (v == 0.0) = true := by
    rw [samples, samplesAfter_pulse]
    simp only [List.forall_mem_cons, List.not_mem_nil, false_imp_iff, implies_true, and_true]
    refine ⟨?_, ?_, ?_⟩ <;> rintro v hv <;> obtain rfl := Except.ok.inj hv <;> decide
  obtain ⟨hsame, -⟩ := locate_alternates (hf touch) (by decide) (by decide) (by decide)
    run_locate_touch (by simp) htouch
  obtain ⟨-, halternates⟩ := locate_alternates (hf pulse) (by decide) (by decide) (by decide)
    run_locate_pulse (by simp) fun t ht v hv => (hpulse t ht v hv).1
  obtain ⟨-, v, w, hv, hw, hfirst, hodd⟩ := halternates fun t ht v hv => (hpulse t ht v hv).2
  exact ⟨(List.isChain_cons_cons.1 hsame).1 rfl, v, w, hv, hw, hfirst _ rfl, hodd⟩

end Detector

end TrajectoryEvents
