import TrajectoryEvents.Search.Scan

/-!
# An account of a search

A search samples a trajectory, asks for values, and consults a handler. An account lists these calls
with their answers, in order. Keeping one changes neither what a search answers nor what it leaves
in memory, so that the account tells what the search itself does.

## Main definitions

* `Call`: a question that a search asks, with the answer.
* `Probe.recorded`: a probe that keeps an account besides.
* `SearchM.Records`: what a computation answers and what it adds to the account.

## Main results

* `SearchM.Records.bind`: the account of one computation after another.
* `Probe.records_sample`, `Probe.records_value`, `Probe.records_report`: what the questions of a
  search add to its account.
-/

namespace TrajectoryEvents

variable {σ S α β C : Type}

/-- A question that a search asks, with the answer. -/
inductive Call (S : Type)
  /-- The state of the trajectory at an epoch. -/
  | sample (epoch : Epoch) (state : S)
  /-- The value at a state. -/
  | value (state : S) (value : Except EventError Float)
  /-- The decision of the handler about an event. -/
  | consult (state : S) (increasing : Bool) (action : Action)
  /-- The state with which the handler replaces the given one. -/
  | replace (state replacement : S)

namespace Call

/-- Whether a call asks the handler. -/
def asksHandler : Call S → Bool
  | .consult _ _ _ | .replace _ _ => true
  | .sample _ _ | .value _ _ => false

end Call

/-- The calls that ask the handler about an event: the decision, and the replacement state if that
is the decision. -/
def Occurrence.calls (event : Occurrence S) : List (Call S) :=
  .consult event.state event.increasing event.action ::
    (event.reset.map (Call.replace event.state)).toList

/-- The computation `x`, with its answer added to an account. -/
def noted (x : StateM σ α) (call : α → C) : StateM (σ × List C) α := fun m =>
  ((x m.1).1, (x m.1).2, m.2 ++ [call (x m.1).1])

/-- The computation `x`, which adds nothing to an account. -/
def unnoted (x : StateM σ α) : StateM (σ × List C) α := fun m => ((x m.1).1, (x m.1).2, m.2)

/-- A probe that keeps an account besides. -/
def Probe.recorded (p : Probe σ S) : Probe (σ × List (Call S)) S where
  sample t := noted (p.sample t) (.sample t)
  g s := ExceptT.mk (noted (p.g s).run (.value s))
  consult s increasing := noted (p.consult s increasing) (.consult s increasing)
  replace s := noted (p.replace s) (.replace s)

namespace SearchM

variable {P : Except EventError α → List C → Prop} {Q : Except EventError β → List C → Prop}

/-- The computation `x'` does what `x` does, and adds to an account besides; the answer and the
calls that are added have the property `P`. -/
def Records (x' : SearchM (σ × List C) α) (x : SearchM σ α)
    (P : Except EventError α → List C → Prop) : Prop :=
  ∀ (m : σ) (account : List C), ∃ calls,
    x'.run (m, account) = ((x.run m).1, (x.run m).2, account ++ calls) ∧ P (x.run m).1 calls

theorem Records.imp {x' : SearchM (σ × List C) α} {x : SearchM σ α}
    {P' : Except EventError α → List C → Prop} (hx : Records x' x P)
    (h : ∀ r calls, P r calls → P' r calls) : Records x' x P' := by
  intro m account
  obtain ⟨calls, hrun, hP⟩ := hx m account
  exact ⟨calls, hrun, h _ _ hP⟩

theorem records_pure {a : α} (h : P (.ok a) []) :
    Records (σ := σ) (pure a) (pure a) P := by
  intro m account
  exact ⟨[], by rw [List.append_nil]; rfl, h⟩

theorem records_throw {e : EventError} (h : P (.error e) []) :
    Records (σ := σ) (throw e : SearchM (σ × List C) α) (throw e) P := by
  intro m account
  exact ⟨[], by rw [List.append_nil]; rfl, h⟩

/-- An effect on the memory that adds to the account as well. -/
theorem records_lift {x' : StateM (σ × List C) α} {x : StateM σ α}
    (h : ∀ m account, ∃ calls,
      x' (m, account) = ((x m).1, (x m).2, account ++ calls) ∧ P (.ok (x m).1) calls) :
    Records (liftM x' : SearchM (σ × List C) α) (liftM x : SearchM σ α) P := by
  intro m account
  obtain ⟨calls, hrun, hP⟩ := h m account
  refine ⟨calls, ?_, hP⟩
  change (Except.ok (x' (m, account)).1, (x' (m, account)).2) = _
  rw [hrun]
  rfl

/-- A computation that goes on after another adds its calls to those of the first, unless that one
fails. -/
theorem Records.bind {x' : SearchM (σ × List C) α} {x : SearchM σ α}
    {k' : α → SearchM (σ × List C) β} {k : α → SearchM σ β} (hx : Records x' x P)
    (hk : ∀ a calls, P (.ok a) calls → Records (k' a) (k a) fun r later => Q r (calls ++ later))
    (he : ∀ e calls, P (.error e) calls → Q (.error e) calls) :
    Records (x' >>= k') (x >>= k) Q := by
  intro m account
  obtain ⟨calls, hrun, hP⟩ := hx m account
  have hbind' : (x' >>= k').run (m, account) =
      (ExceptT.bindCont k' (x'.run (m, account)).1).run (x'.run (m, account)).2 := rfl
  have hbind : (x >>= k).run m = (ExceptT.bindCont k (x.run m).1).run (x.run m).2 := rfl
  rw [hbind', hbind, hrun]
  cases hr : (x.run m).1 with
  | ok a =>
    rw [hr] at hP
    obtain ⟨later, hlater, hQ⟩ := hk a calls hP (x.run m).2 (account ++ calls)
    refine ⟨calls ++ later, ?_, hQ⟩
    rw [← List.append_assoc]
    exact hlater
  | error e =>
    rw [hr] at hP
    exact ⟨calls, rfl, he e calls hP⟩

end SearchM

namespace Probe

/-- What a report returns, and what it leaves in memory. -/
theorem run_report (p : Probe σ S) (epoch : Epoch) (s : S) (increasing : Bool) (m : σ) :
    p.report epoch s increasing m =
      if (p.consult s increasing m).1 = .resetState then
        (⟨epoch, s, increasing, .resetState,
          some (p.replace s (p.consult s increasing m).2).1⟩,
          (p.replace s (p.consult s increasing m).2).2)
      else
        (⟨epoch, s, increasing, (p.consult s increasing m).1, none⟩,
          (p.consult s increasing m).2) := by
  simp only [report, bind, StateT.bind]
  obtain ⟨action, m'⟩ := p.consult s increasing m
  by_cases h : action = .resetState
  · simp only [h, if_true]
    rfl
  · simp only [h, if_false]
    rfl

/-- An event is reported where it is found. -/
theorem report_epoch_state (p : Probe σ S) (epoch : Epoch) (s : S) (increasing : Bool) (m : σ) :
    (p.report epoch s increasing m).1.epoch = epoch ∧
      (p.report epoch s increasing m).1.state = s := by
  rw [run_report]
  split <;> exact ⟨rfl, rfl⟩

/-- A report adds the calls of the event that it returns. -/
theorem run_report_recorded (p : Probe σ S) (epoch : Epoch) (s : S) (increasing : Bool)
    (m : σ) (account : List (Call S)) :
    p.recorded.report epoch s increasing (m, account) =
      ((p.report epoch s increasing m).1, (p.report epoch s increasing m).2,
        account ++ (p.report epoch s increasing m).1.calls) := by
  simp only [run_report, recorded, noted]
  by_cases h : (p.consult s increasing m).1 = .resetState
  · simp [h, Occurrence.calls]
  · simp [h, Occurrence.calls]

section Records

open SearchM

variable (p : Probe σ S)

/-- A sample adds itself to the account. -/
theorem records_sample (t : Epoch) :
    Records (liftM (p.recorded.sample t) : SearchM (σ × List (Call S)) S)
      (liftM (p.sample t) : SearchM σ S)
      fun r calls => ∃ m, r = .ok (p.sample t m).1 ∧ calls = [.sample t (p.sample t m).1] := by
  apply records_lift
  intro m account
  exact ⟨_, rfl, m, rfl, rfl⟩

/-- A value adds itself to the account. -/
theorem records_value (s : S) :
    Records (p.recorded.g s) (p.g s)
      fun r calls => ∃ m, r = ((p.g s).run m).1 ∧ calls = [.value s r] :=
  fun m _ => ⟨_, rfl, m, rfl, rfl⟩

/-- A computation that goes on after a look at an epoch, if there is a value. -/
theorem records_look {t : Epoch} {k' : S → Float → SearchM (σ × List (Call S)) α}
    {k : S → Float → SearchM σ α} {P : Except EventError α → List (Call S) → Prop}
    (hk : ∀ m m' v, ((p.g (p.sample t m).1).run m').1 = .ok v →
      Records (k' (p.sample t m).1 v) (k (p.sample t m).1 v) fun r calls =>
        P r (.sample t (p.sample t m).1 :: .value (p.sample t m).1 (.ok v) :: calls))
    (he : ∀ m m' e, ((p.g (p.sample t m).1).run m').1 = .error e →
      P (.error e) [.sample t (p.sample t m).1, .value (p.sample t m).1 (.error e)]) :
    Records (liftM (p.recorded.sample t) >>= fun s => p.recorded.g s >>= k' s :
        SearchM (σ × List (Call S)) α)
      (liftM (p.sample t) >>= fun s => p.g s >>= k s) P := by
  refine (p.records_sample t).bind ?_ ?_
  · rintro _ _ ⟨m, ⟨⟩, rfl⟩
    refine (p.records_value _).bind ?_ ?_
    · rintro v _ ⟨m', hv, rfl⟩
      exact hk m m' v hv.symm
    · rintro e _ ⟨m', hv, rfl⟩
      exact he m m' e hv.symm
  · rintro e _ ⟨m, ⟨⟩, -⟩

/-- The late end of a bracket adds its sample to the account. -/
theorem records_lateEnd {b : Bracket} {P : Except EventError (Epoch × S) → List (Call S) → Prop}
    (h : ∀ m, P (.ok (b.late, (p.sample b.late m).1)) [.sample b.late (p.sample b.late m).1]) :
    Records (p.recorded.lateEnd b) (p.lateEnd b) P := by
  refine (p.records_sample b.late).bind ?_ ?_
  · rintro _ _ ⟨m, ⟨⟩, rfl⟩
    exact records_pure (h m)
  · rintro e _ ⟨m, ⟨⟩, -⟩

/-- A report adds the calls of the event that it returns. -/
theorem records_report (epoch : Epoch) (s : S) (increasing : Bool) :
    Records (liftM (p.recorded.report epoch s increasing) :
        SearchM (σ × List (Call S)) (Occurrence S))
      (liftM (p.report epoch s increasing))
      fun r calls => ∃ event, (∃ m, event = (p.report epoch s increasing m).1) ∧ r = .ok event ∧
        calls = event.calls := by
  apply records_lift
  intro m account
  exact ⟨_, p.run_report_recorded _ _ _ m account, _, ⟨m, rfl⟩, rfl, rfl⟩

end Records

end Probe

end TrajectoryEvents
