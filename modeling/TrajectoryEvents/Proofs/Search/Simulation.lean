import TrajectoryEvents.Proofs.Search.Crossing
import TrajectoryEvents.Proofs.Search.Run

/-!
# Searches that run alike

Two searches of one interval with the same settings run alike if their values are related at every
epoch at which they look, by a relation that no test of a search can tell: they look at the same
epochs, find events at the same epochs, and fail alike. The directions of the events may be turned.

## Main definitions

* `Simulation`: a relation between values that no test of a search can tell.
* `Related`: values that are related, or the same failure.
* `SameValue`: values that differ at most in the sign of a zero.

## Main results

* `Simulation.narrow_eq`: related values narrow a bracket down to the same epoch.
* `Simulation.outline_eq`: related values have the same outline, up to the directions.
* `simulation_sameValue`, `simulation_neg`: a search cannot tell the sign of a zero, and negation
  turns the directions.
* `Detector.locate_simulates`: detectors with related values are searched alike.
-/

namespace TrajectoryEvents

variable {σ S : Type}

/-! ### Relations between values -/

/-- A relation between values that no test of a search can tell: neither whether a value is zero,
nor whether it crosses zero, nor on which side of zero it is. The directions are turned. -/
structure Simulation (R : Float → Float → Prop) (turn : Bool → Bool) : Prop where
  zero : ∀ {v w}, R v w → ((v == 0.0) = true ↔ (w == 0.0) = true)
  crosses : ∀ {v w v' w'}, R v w → R v' w' → (Crosses v v' ↔ Crosses w w')
  side : ∀ {v w v' w'}, R v w → R v' w' → ¬ (v == 0.0) = true → ¬ (v' == 0.0) = true →
    (decide (0.0 < v) = decide (0.0 < v') ↔ decide (0.0 < w) = decide (0.0 < w'))
  direction : ∀ {v w v' w'}, R v w → R v' w' → Crosses v v' →
    decide (w < w') = turn (decide (v < v'))

/-- Values that are related, or the same failure. -/
inductive Related (R : Float → Float → Prop) :
    Except EventError Float → Except EventError Float → Prop
  | ok {v w : Float} (h : R v w) : Related R (.ok v) (.ok w)
  | error (e : EventError) : Related R (.error e) (.error e)

/-- Values related to a failure are the same failure. -/
theorem Related.eq_error {R : Float → Float → Prop} {e : EventError}
    {y : Except EventError Float} (h : Related R (.error e) y) : y = .error e := by
  cases h
  rfl

/-- Values related to a value are values. -/
theorem Related.exists_eq_ok {R : Float → Float → Prop} {v : Float} {y : Except EventError Float}
    (h : Related R (.ok v) y) : ∃ w, y = .ok w ∧ R v w := by
  cases h with
  | ok h => exact ⟨_, rfl, h⟩

/-- Values that differ at most in the sign of a zero. -/
def SameValue (v w : Float) : Prop := v.isNaN = true ∧ w.isNaN = true ∨ (v == w) = true

/-- Values are the same exactly if they share a place. -/
theorem sameValue_iff_place {v w : Float} :
    SameValue v w ↔ Binary64.place v = Binary64.place w := by
  rw [SameValue, Binary64.beq_iff]
  constructor
  · rintro (⟨hv, hw⟩ | ⟨-, -, h⟩)
    · rw [Binary64.place_of_isNaN hv, Binary64.place_of_isNaN hw]
    · exact h
  · intro h
    -- NaN stands apart from all numbers
    cases hv : v.isNaN <;> cases hw : w.isNaN
    · exact .inr ⟨rfl, rfl, h⟩
    · have := (Binary64.place_bounds hv).2
      have := Binary64.place_of_isNaN hw
      omega
    · have := (Binary64.place_bounds hw).2
      have := Binary64.place_of_isNaN hv
      omega
    · exact .inl ⟨rfl, rfl⟩

/-- Of two values that are the same, neither or both are NaN. -/
theorem SameValue.isNaN_eq {v w : Float} (h : SameValue v w) : v.isNaN = w.isNaN := by
  rw [SameValue, Binary64.beq_iff] at h
  rcases h with ⟨hv, hw⟩ | ⟨hv, hw, -⟩
  · rw [hv, hw]
  · rw [hv, hw]

/-- A search cannot tell the sign of a zero. -/
theorem simulation_sameValue : Simulation SameValue id where
  zero := by
    intro v w h
    rw [Binary64.beq_zero_iff, Binary64.beq_zero_iff, h.isNaN_eq, sameValue_iff_place.1 h]
  crosses := by
    intro v w v' w' h h'
    rw [crosses_iff, crosses_iff, h.isNaN_eq, h'.isNaN_eq, sameValue_iff_place.1 h,
      sameValue_iff_place.1 h']
  side := by
    intro v w v' w' h h' _ _
    simp only [Binary64.zero_lt_iff, h.isNaN_eq, h'.isNaN_eq, sameValue_iff_place.1 h,
      sameValue_iff_place.1 h']
  direction := by
    intro v w v' w' h h' _
    simp only [Binary64.lt_iff, h.isNaN_eq, h'.isNaN_eq, sameValue_iff_place.1 h,
      sameValue_iff_place.1 h', id]

/-- Negation turns the directions, and changes nothing else as long as there is no NaN. -/
theorem simulation_neg : Simulation (fun v w => v.isNaN = false ∧ w = -v) Bool.not where
  zero := by
    rintro v _ ⟨hv, rfl⟩
    obtain ⟨hn, hp⟩ := Binary64.place_neg hv
    simp only [Binary64.beq_zero_iff, hv, hn, hp, true_and]
    omega
  crosses := by
    rintro v _ v' _ ⟨hv, rfl⟩ ⟨hv', rfl⟩
    obtain ⟨hn, hp⟩ := Binary64.place_neg hv
    obtain ⟨hn', hp'⟩ := Binary64.place_neg hv'
    simp only [crosses_iff, hv, hv', hn, hn', hp, hp', true_and]
    omega
  side := by
    rintro v _ v' _ ⟨hv, rfl⟩ ⟨hv', rfl⟩ h0 h0'
    obtain ⟨hn, hp⟩ := Binary64.place_neg hv
    obtain ⟨hn', hp'⟩ := Binary64.place_neg hv'
    simp only [Binary64.beq_zero_iff, hv, hv', true_and] at h0 h0'
    simp only [Binary64.zero_lt_iff, hv, hv', hn, hn', hp, hp', true_and, decide_eq_decide]
    omega
  direction := by
    rintro v _ v' _ ⟨hv, rfl⟩ ⟨hv', rfl⟩ hc
    obtain ⟨hn, hp⟩ := Binary64.place_neg hv
    obtain ⟨hn', hp'⟩ := Binary64.place_neg hv'
    have hc := (crosses_iff.1 hc).2.2
    simp only [Binary64.lt_iff, hv, hv', hn, hn', hp, hp', true_and, ← decide_not,
      decide_eq_decide]
    omega

/-! ### Bisections and scans -/

section Runs

variable {R : Float → Float → Prop} {turn : Bool → Bool} (hR : Simulation R turn)
include hR

/-- Related values keep the same half of a bracket. -/
theorem Simulation.half_eq {b : Bracket} {v w w₀ : Float} (h : R v w) (h₀ : R b.earlyValue w₀)
    (hv : ¬ (v == 0.0) = true) (hb : ¬ (b.earlyValue == 0.0) = true) :
    ∃ w', Bracket.half ⟨b.early, w₀, b.late⟩ w = ⟨(b.half v).early, w', (b.half v).late⟩ ∧
      R (b.half v).earlyValue w' ∧ ¬ ((b.half v).earlyValue == 0.0) = true := by
  have hside := hR.side h h₀ hv hb
  unfold Bracket.half
  by_cases hs : decide (0.0 < v) = decide (0.0 < b.earlyValue)
  · rw [if_pos hs, if_pos (hside.1 hs)]
    exact ⟨w, rfl, h, hv⟩
  · rw [if_neg hs, if_neg (mt hside.2 hs)]
    exact ⟨w₀, rfl, h₀, hb⟩

/-- Related values narrow a bracket down to the same epoch. -/
theorem Simulation.narrow_eq {value value' : Epoch → Except EventError Float} {threshold : Float}
    {permitted : UInt64} {n : ℕ} {b : Bracket} {w : Float}
    (hval : ∀ t ∈ midpoints value threshold n b, Related R (value t) (value' t))
    (hw : R b.earlyValue w) (hb : ¬ (b.earlyValue == 0.0) = true) :
    narrow value' threshold permitted n ⟨b.early, w, b.late⟩ =
      narrow value threshold permitted n b := by
  induction n generalizing b w with
  | zero => rfl
  | succ n ih =>
    -- width and midpoint of a bracket do not depend on the value
    have hwidth : Bracket.width ⟨b.early, w, b.late⟩ = b.width := rfl
    have htight : Bracket.IsTight ⟨b.early, w, b.late⟩ ↔ b.IsTight := Iff.rfl
    have hmid : Bracket.midpoint ⟨b.early, w, b.late⟩ = b.midpoint := rfl
    simp only [narrow, hwidth, htight, hmid]
    by_cases hn : b.width ≤ threshold
    · simp only [if_pos hn]
    by_cases ht : b.IsTight
    · simp only [if_neg hn, if_pos ht]
    simp only [midpoints, if_neg hn, if_neg ht] at hval ⊢
    have hmem := hval b.midpoint List.mem_cons_self
    generalize hv : value b.midpoint = x at hmem hval
    generalize value' b.midpoint = x' at hmem
    cases hmem with
    | error e => rfl
    | @ok v w' h =>
      by_cases h0 : (v == 0.0) = true
      · simp only [if_pos h0, if_pos ((hR.zero h).1 h0)]
      · simp only [if_neg h0, if_neg (mt (hR.zero h).2 h0)] at hval ⊢
        obtain ⟨w'', heq, hR', hne⟩ := hR.half_eq h hw h0 hb
        rw [heq]
        exact ih (fun t ht => hval t (List.mem_cons_of_mem _ ht)) hR' hne

end Runs

/-- A finding with its direction turned. -/
def Finding.turned (turn : Bool → Bool) (x : Finding) : Finding :=
  { x with increasing := turn x.increasing }

/-- An outline with its directions turned. -/
def Outline.turned (turn : Bool → Bool) (o : Outline) : Outline :=
  { o with found := o.found.map (Finding.turned turn) }

/-- An event with its direction turned. -/
def Occurrence.turned (turn : Bool → Bool) (event : Occurrence S) : Occurrence S :=
  { event with increasing := turn event.increasing }

/-- Events whose directions are not turned stay what they are. -/
theorem Occurrence.map_turned_id : List.map (Occurrence.turned id : Occurrence S → _) = id :=
  List.map_id_fun

theorem Outline.verdict_turned (turn : Bool → Bool) (f : Epoch → S) (o : Outline) :
    (o.turned turn).verdict f = (o.verdict f).map (List.map (Occurrence.turned turn)) := by
  obtain ⟨found, failure⟩ := o
  cases failure with
  | some e => rfl
  | none => simp [verdict, turned, Except.map, Finding.passed, Finding.turned, Occurrence.turned]

/-! ### Searches -/

section Searches

variable {p : Probe σ S} {f : Epoch → S} {g : S → Except EventError Float} {settings : Settings}

/-- A look at an epoch asks for the value there. -/
theorem mem_look (f : Epoch → S) (g : S → Except EventError Float) (t : Epoch) :
    .value (f t) (g (f t)) ∈ look f g t := by
  simp [look]

variable {R : Float → Float → Prop} {turn : Bool → Bool} {g' : S → Except EventError Float}

/-- A look at an epoch with a value finds a related value there. -/
private theorem exists_related {b : Epoch} {v : Float} {calls : List (Call S)}
    (hrel : ∀ s x, .value s x ∈ look f g b ++ calls → Related R x (g' s))
    (value : g (f b) = .ok v) : ∃ w, g' (f b) = .ok w ∧ R v w := by
  have h := hrel _ _ (List.mem_append_left _ (mem_look f g b))
  rw [value] at h
  exact h.exists_eq_ok

/-- Related values narrow a bracket down to the same epoch, if they cross zero. -/
theorem Simulation.refined_eq (hR : Simulation R turn) {a b : Epoch} {v w w₀ : Float}
    {calls : List (Call S)} {r : Except EventError Epoch} (hc : Crosses v w)
    (h : Refines f g settings ⟨a, v, b⟩ r calls)
    (hrel : ∀ s x, .value s x ∈ calls → Related R x (g' s)) (hv : R v w₀) :
    refined (fun t => g' (f t)) settings ⟨a, w₀, b⟩ = r := by
  have hne : ¬ (v == 0.0) = true := fun h0 => not_crosses_of_zero h0 hc
  have hval : ∀ t ∈ midpoints (fun t => g (f t)) settings.threshold
      settings.maxIterationCount.toNat ⟨a, v, b⟩, Related R (g (f t)) (g' (f t)) :=
    fun t ht => hrel _ _ ((h.calls.look_infix ht).subset (mem_look f g t))
  rw [← h.answer]
  exact hR.narrow_eq (b := ⟨a, v, b⟩) hval hv hne

/-- Along the course of a scan whose handler always continues, values that are related wherever the
scan asks for them have the same outline, up to the directions. -/
theorem Simulation.outline_eq (hR : Simulation R turn) (hp : p.Continues) {ts : List Epoch}
    {a : Epoch} {v w : Float} {calls : List (Call S)}
    {r : Except EventError (List (Occurrence S))} (h : Course p f g settings ts a v calls r)
    (hrel : ∀ s x, .value s x ∈ calls → Related R x (g' s)) (hv : R v w) :
    outline (fun t => g' (f t)) settings ts a w =
      (outline (fun t => g (f t)) settings ts a v).turned turn := by
  -- the induction is on the course, so that values count only where the scan asks for them
  induction h generalizing w with
  | done => rfl
  | failed value =>
    have hg' := hrel _ _ (mem_look f g _)
    rw [value] at hg'
    simp only [outline, value, hg'.eq_error]
    rfl
  | quiet value flat _ ih =>
    obtain ⟨w', hw', h'⟩ := exists_related hrel value
    simp only [outline, value, hw', if_neg flat, if_neg (mt (hR.crosses hv h').2 flat)]
    exact ih (fun s x hx => hrel s x (List.mem_append_right _ hx)) h'
  | unresolved value crosses refines =>
    obtain ⟨w', hw', h'⟩ := exists_related hrel value
    have hrefined := hR.refined_eq crosses refines
      (fun s x hx => hrel s x (List.mem_append_right _ hx)) hv
    simp only [outline, value, hw', if_pos crosses, if_pos ((hR.crosses hv h').1 crosses),
      refines.answer, hrefined]
    rfl
  | stopped _ _ _ reports stop => exact absurd stop (hp.answers f _ _ reports).2
  | found value crosses refines _ _ _ ih =>
    obtain ⟨w', hw', h'⟩ := exists_related hrel value
    simp only [List.mem_append] at hrel
    have hrefined := hR.refined_eq crosses refines
      (fun s x hx => hrel s x (.inr (.inl hx))) hv
    have hlater := ih (fun s x hx => hrel s x (.inr (.inr (.inr hx)))) h'
    simp only [outline, value, hw', if_pos crosses, if_pos ((hR.crosses hv h').1 crosses),
      refines.answer, hrefined, hlater, hR.direction hv h' crosses]
    rfl

/-- Two searches whose handlers always continue, with values that are related wherever the first one
asks for them, answer alike. -/
theorem Simulation.answer_eq {σ' : Type} {p' : Probe σ' S} (hR : Simulation R turn)
    (hp : p.Continues) (hp' : p'.Continues) {start : Epoch} {ts : List Epoch}
    {calls calls' : List (Call S)} {r r' : Except EventError (List (Occurrence S))}
    (h : Searches p f g settings start ts calls r)
    (h' : Searches p' f g' settings start ts calls' r')
    (hrel : ∀ s x, .value s x ∈ calls → Related R x (g' s)) :
    r' = r.map (List.map (Occurrence.turned turn)) := by
  cases h with
  | failed value =>
    have hg' := hrel _ _ (mem_look f g start)
    rw [value] at hg'
    cases h' with
    | failed value' =>
      obtain rfl := Except.error.inj (value'.symm.trans hg'.eq_error)
      rfl
    | scanned value' => cases value'.symm.trans hg'.eq_error
  | scanned value course =>
    obtain ⟨w, hw, hv⟩ := exists_related hrel value
    cases h' with
    | failed value' => cases value'.symm.trans hw
    | scanned value' course' =>
      obtain rfl := Except.ok.inj (value'.symm.trans hw)
      -- both answers are the verdicts of their outlines
      rw [course'.eq_verdict hp', course.eq_verdict hp, ← Outline.verdict_turned,
        hR.outline_eq hp course (fun s x hx => hrel s x (List.mem_append_right _ hx)) hv]

end Searches

/-! ### Detectors -/

namespace Detector

variable {ι κ τ : Type} [Indicator ι S] [Snapshot S] [CustomHandler κ S τ]

/-- The probe of a detector with a handler that always continues. -/
theorem continues_probe {d : Detector ι κ} (h : d.handler = .continueOnEvent)
    (trajectory : Epoch → StateM τ S) : (d.probe trajectory).Continues := by
  intro s increasing m
  simp only [probe, h]
  rfl

section Locate

variable [Initializable ι S τ] {trajectory : Epoch → StateM τ S} {f : Epoch → S}
  (hf : ∀ t m, (trajectory t m).1 = f t) {start finish : Epoch}
include hf

/-- Detectors that always continue, with the same settings and with values that are related wherever
the search of the first one asks for them, are searched alike. -/
theorem locate_simulates {R : Float → Float → Prop} {turn : Bool → Bool} (hR : Simulation R turn)
    {d d' : Detector ι κ} (hd : d.handler = .continueOnEvent) (hd' : d'.handler = .continueOnEvent)
    (hsettings : d'.settings = d.settings) (m : Memory τ)
    (hrel : ∀ s x, .value s x ∈ d.calls trajectory start finish m →
      Related R x ((d'.prepared trajectory start finish m).g s)) :
    ((d'.locate trajectory start finish).run m).1.1 =
      ((d.locate trajectory start finish).run m).1.1.map (List.map (Occurrence.turned turn)) := by
  by_cases h : finish ≤ start
  · rw [run_locate_of_le _ _ h, run_locate_of_le _ _ h]
    rfl
  have hsearch := d.searches_locate hf h m
  have hsearch' := d'.searches_locate hf h m
  rw [hsettings] at hsearch'
  have hp := continues_probe ((d.handler_prepared hf start finish m).trans hd) trajectory
  have hp' := continues_probe ((d'.handler_prepared hf start finish m).trans hd') trajectory
  exact hR.answer_eq hp hp' hsearch hsearch' hrel

end Locate

end Detector

end TrajectoryEvents
