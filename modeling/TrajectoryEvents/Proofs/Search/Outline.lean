import Mathlib.Data.List.Forall2
import TrajectoryEvents.Search.Scan

/-!
# What there is to be found

Along a trajectory that is a function of the epoch, the value of a detector is a function of the
epoch as well, and what a search finds does not depend on the handler: epochs and directions of the
events are determined before the handler is asked about the first of them.

## Main definitions

* `narrow`, `outline`: a bisection and a scan without their effects.
* `midpoints`: the epochs that a bisection looks at.
* `Reported`: what becomes of an outline once the handler decides about it.
* `Outline.answer`, `Outline.verdict`: what becomes of it if the handler never stops, or always
  continues.

## Main results

* `narrow_cases`, `outline_cons_cases`: what a round of a bisection or an outline can do.
* `Reported.of_ok`: without a decision to stop, every finding is reported, and nothing else.
-/

namespace TrajectoryEvents

variable {S α β : Type}

/-! ### Outlines -/

/-- The epoch to which a bracket is narrowed down, given the value at each epoch. -/
def narrow (value : Epoch → Except EventError Float) (threshold : Float) (permitted : UInt64) :
    ℕ → Bracket → Except EventError Epoch
  | 0, b => if b.width ≤ threshold then .ok b.late else .error (.convergenceFailure permitted)
  | n + 1, b =>
    if b.width ≤ threshold then .ok b.late
    else if b.IsTight then .ok b.late
    else
      match value b.midpoint with
      | .error e => .error e
      | .ok v =>
        if v == 0.0 then .ok b.midpoint
        else narrow value threshold permitted n (b.half v)

/-- The epoch to which a search with the given settings narrows a bracket down. -/
def refined (value : Epoch → Except EventError Float) (settings : Settings) (b : Bracket) :
    Except EventError Epoch :=
  narrow value settings.threshold settings.maxIterationCount settings.maxIterationCount.toNat b

/-- Everything that a bisection without a failure can do: stop at a narrow bracket; or else, if a
halving is left, stop at a tight bracket or at a zero, or go on with a half. -/
theorem narrow_cases {value : Epoch → Except EventError Float} {threshold : Float}
    {permitted : UInt64} {n : ℕ} {b : Bracket} {e : Epoch}
    (h : narrow value threshold permitted n b = .ok e) :
    b.width ≤ threshold ∧ e = b.late ∨
      ¬ b.width ≤ threshold ∧ ∃ k, n = k + 1 ∧
        (b.IsTight ∧ e = b.late ∨
          ¬ b.IsTight ∧ ∃ v, value b.midpoint = .ok v ∧
            ((v == 0.0) = true ∧ e = b.midpoint ∨
              ¬ (v == 0.0) = true ∧ narrow value threshold permitted k (b.half v) = .ok e)) := by
  by_cases hw : b.width ≤ threshold
  · refine .inl ⟨hw, ?_⟩
    cases n <;> simp only [narrow, if_pos hw] at h <;> exact (Except.ok.inj h).symm
  · refine .inr ⟨hw, ?_⟩
    cases n with
    | zero =>
      simp only [narrow, if_neg hw] at h
      cases h
    | succ k =>
      refine ⟨k, rfl, ?_⟩
      simp only [narrow, if_neg hw] at h
      by_cases ht : b.IsTight
      · rw [if_pos ht] at h
        exact .inl ⟨ht, (Except.ok.inj h).symm⟩
      · rw [if_neg ht] at h
        refine .inr ⟨ht, ?_⟩
        cases hv : value b.midpoint with
        | error e =>
          rw [hv] at h
          cases h
        | ok v =>
          simp only [hv] at h
          by_cases h0 : (v == 0.0) = true
          · rw [if_pos h0] at h
            exact ⟨v, rfl, .inl ⟨h0, (Except.ok.inj h).symm⟩⟩
          · rw [if_neg h0] at h
            exact ⟨v, rfl, .inr ⟨h0, h⟩⟩

/-- The midpoints at which a bisection looks, given the value at each epoch. -/
def midpoints (value : Epoch → Except EventError Float) (threshold : Float) :
    ℕ → Bracket → List Epoch
  | 0, _ => []
  | n + 1, b =>
    if b.width ≤ threshold then []
    else if b.IsTight then []
    else
      b.midpoint :: match value b.midpoint with
        | .error _ => []
        | .ok v => if v == 0.0 then [] else midpoints value threshold n (b.half v)

/-- An event before the handler is asked about it. -/
structure Finding where
  /-- The epoch of the event. -/
  epoch : Epoch
  /-- Whether the value went up. -/
  increasing : Bool
deriving DecidableEq

/-- What there is to be found along a list of sample epochs. -/
structure Outline where
  /-- The events, in order. -/
  found : List Finding
  /-- The failure that ends the search after them, if there is one. -/
  failure : Option EventError
deriving DecidableEq

/-- What there is to be found along a list of sample epochs, after a sample `a` with the value
`value`. -/
def outline (g : Epoch → Except EventError Float) (settings : Settings) :
    List Epoch → Epoch → Float → Outline
  | [], _, _ => ⟨[], none⟩
  | b :: rest, a, value =>
    match g b with
    | .error e => ⟨[], some e⟩
    | .ok next =>
      if Crosses value next then
        match refined g settings ⟨a, value, b⟩ with
        | .error e => ⟨[], some e⟩
        | .ok epoch =>
          let later := outline g settings rest b next
          { later with found := ⟨epoch, decide (value < next)⟩ :: later.found }
      else outline g settings rest b next

/-- Everything that a round without a failure can do: find a crossing and narrow it down, or find
none. Then the rest is without a failure as well. -/
theorem outline_cons_cases {g : Epoch → Except EventError Float} {settings : Settings} {a b : Epoch}
    {rest : List Epoch} {value : Float}
    (h : (outline g settings (b :: rest) a value).failure = none) :
    ∃ next, g b = .ok next ∧ (outline g settings rest b next).failure = none ∧
      (¬ Crosses value next ∧
        outline g settings (b :: rest) a value = outline g settings rest b next ∨
      Crosses value next ∧ ∃ epoch, refined g settings ⟨a, value, b⟩ = .ok epoch ∧
        (outline g settings (b :: rest) a value).found =
          ⟨epoch, decide (value < next)⟩ :: (outline g settings rest b next).found) := by
  simp only [outline] at h ⊢
  cases hg : g b with
  | error e => simp [hg] at h
  | ok next =>
    simp only [hg] at h ⊢
    by_cases hc : Crosses value next
    · simp only [if_pos hc] at h ⊢
      cases hr : refined g settings ⟨a, value, b⟩ with
      | error e => simp [hr] at h
      | ok epoch =>
        simp only [hr] at h ⊢
        exact ⟨next, rfl, h, .inr ⟨hc, epoch, rfl, rfl⟩⟩
    · simp only [if_neg hc] at h ⊢
      exact ⟨next, rfl, h, .inl ⟨hc, rfl⟩⟩

/-- An event as the handler left it. -/
structure Finding.Matches (f : Epoch → S) (x : Finding) (event : Occurrence S) : Prop where
  epoch : event.epoch = x.epoch
  state : event.state = f x.epoch
  increasing : event.increasing = x.increasing
  reset : event.reset.isSome = true ↔ event.action = .resetState

/-- An event that the handler let pass. -/
def Finding.passed (f : Epoch → S) (x : Finding) : Occurrence S :=
  ⟨x.epoch, f x.epoch, x.increasing, .proceed, none⟩

/-- What becomes of an outline if the handler answers to every finding as `report` says, and never
stops. -/
def Outline.answer (report : Finding → Occurrence S) (o : Outline) :
    Except EventError (List (Occurrence S)) :=
  match o.failure with
  | none => .ok (o.found.map report)
  | some e => .error e

/-- What becomes of an outline if the handler always continues. -/
def Outline.verdict (f : Epoch → S) (o : Outline) : Except EventError (List (Occurrence S)) :=
  match o.failure with
  | none => .ok (o.found.map (Finding.passed f))
  | some e => .error e

/-- Lists related element by element to a list between them are related to each other. -/
theorem forall₂_comp {γ : Type} {P : α → β → Prop} {Q : β → γ → Prop} {R : α → γ → Prop}
    (hR : ∀ a b c, P a b → Q b c → R a c) {as : List α} {bs : List β} {cs : List γ}
    (h : List.Forall₂ P as bs) (h' : List.Forall₂ Q bs cs) : List.Forall₂ R as cs := by
  induction h generalizing cs with
  | nil =>
    cases h'
    exact .nil
  | cons hab _ ih =>
    cases h' with
    | cons hbc hrest => exact .cons (hR _ _ _ hab hbc) (ih hrest)

/-- What becomes of an outline once the handler decides about it: all of it is reported, or the part
up to a decision to stop, or the failure. -/
inductive Reported (f : Epoch → S) : Outline → Except EventError (List (Occurrence S)) → Prop
  | done : Reported f ⟨[], none⟩ (.ok [])
  | failed (e : EventError) : Reported f ⟨[], some e⟩ (.error e)
  | stopped {x rest failure event} (h : Finding.Matches f x event) (stop : event.action = .stop) :
    Reported f ⟨x :: rest, failure⟩ (.ok [event])
  | found {x rest failure event later} (h : Finding.Matches f x event)
    (go : event.action ≠ .stop) (hlater : Reported f ⟨rest, failure⟩ (.ok later)) :
    Reported f ⟨x :: rest, failure⟩ (.ok (event :: later))
  | lost {rest failure e} (x : Finding) (hlater : Reported f ⟨rest, failure⟩ (.error e)) :
    Reported f ⟨x :: rest, failure⟩ (.error e)

/-- Without a decision to stop, every finding is reported, and nothing else. -/
theorem Reported.of_ok {f : Epoch → S} {o : Outline} {events : List (Occurrence S)}
    (h : Reported f o (.ok events)) (hstop : ∀ e ∈ events, e.action ≠ .stop) :
    o.failure = none ∧ List.Forall₂ (Finding.Matches f) o.found events := by
  -- only reports of lists matter, but the induction is on all of them
  generalize hr : (Except.ok events : Except EventError (List (Occurrence S))) = r at h
  induction h generalizing events with
  | done =>
    obtain rfl := Except.ok.inj hr
    exact ⟨rfl, .nil⟩
  | failed => cases hr
  | stopped _ stop =>
    obtain rfl := Except.ok.inj hr
    exact absurd stop (hstop _ (List.mem_singleton_self _))
  | found hm _ _ ih =>
    obtain rfl := Except.ok.inj hr
    obtain ⟨hf, hrest⟩ := ih (fun e he => hstop e (List.mem_cons_of_mem _ he)) rfl
    exact ⟨hf, .cons hm hrest⟩
  | lost => cases hr

end TrajectoryEvents
