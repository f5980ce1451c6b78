import TrajectoryEvents.Proofs.Search.Composition

/-!
# Running out of bisections

A search fails although no value does only if it runs out of bisections. Then all of those that are
permitted were spent on one bracket between two samples, each on a bracket wider than the threshold
with an epoch strictly inside, and what is left is still wider than the threshold.

It need not have an epoch strictly inside. After the last bisection a search looks at the width of
the bracket once more, but not at its midpoint: a bracket whose ends have become neighbours in the
last bisection is given up, while one more bisection that is permitted, and not made, would have
made an event of its late end.

## Main definitions

* `Bracket.HalvedTo`: what is left of a bracket after a number of halvings.
* `Exhausts`: how a search runs out of bisections.

## Main results

* `Narrows.halvedTo`, `Scans.exhausts`: bisections and scans fail for no other reason.
* `Detector.locate_exhausts`: nor do searches.
* `Detector.locate_gives_up_neighbours`: a search that gives up a bracket of neighbouring epochs.
-/

namespace TrajectoryEvents

variable {S : Type}

/-! ### Halvings -/

/-- What is left of a bracket after a number of halvings, with the calls that these make. Every
bracket that is halved is wider than the threshold, and its midpoint lies strictly inside it. -/
inductive Bracket.HalvedTo (threshold : Float) : ℕ → Bracket → List (Call S) → Bracket → Prop
  | refl {b} : HalvedTo threshold 0 b [] b
  | half {n b s v calls left} (wide : ¬ b.width ≤ threshold) (after : b.early < b.midpoint)
    (before : b.midpoint < b.late) (later : HalvedTo threshold n (b.half v) calls left) :
    HalvedTo threshold (n + 1) b (.sample b.midpoint s :: .value s (.ok v) :: calls) left

/-- A bisection of finite epochs that fails, although no value does, has spent all halvings, and
what is left is still wider than the threshold. -/
theorem Narrows.halvedTo {threshold : Float} {permitted : UInt64} {n : ℕ} {b : Bracket}
    {calls : List (Call S)} {r : Except EventError (Epoch × S)}
    (h : Narrows threshold permitted n b calls r) (hb : b.early.Precedes b.late)
    (hsound : ∀ c ∈ calls, c.failure? = none) {e : EventError} (he : r = .error e) :
    e = .convergenceFailure permitted ∧
      ∃ left, b.HalvedTo threshold n calls left ∧ ¬ left.width ≤ threshold := by
  induction h with
  | narrow | tight | zero => cases he
  | exhausted wide =>
    obtain rfl := Except.error.inj he
    exact ⟨rfl, _, .refl, wide⟩
  | failed => cases hsound _ (List.mem_cons_of_mem _ List.mem_cons_self)
  | @half n b _ v _ _ wide inside _ ih =>
    obtain ⟨hafter, hbefore⟩ := Bracket.midpoint_between hb inside
    have hhalf := ((Bracket.Inside.refl hb).half inside v).precedes
    simp only [List.forall_mem_cons] at hsound
    obtain ⟨rfl, left, hleft, hwide⟩ := ih hhalf hsound.2.2 he
    exact ⟨rfl, left, .half wide hafter.lt hbefore.lt hleft, hwide⟩

/-! ### Scans -/

/-- How a search runs out of bisections. The value crosses zero between two consecutive samples. The
last calls of the search are a look at the later one and all bisections that are permitted; the
bracket `left` remains, which is still wider than the threshold. -/
inductive Exhausts (settings : Settings) (start finish : Epoch) (calls : List (Call S))
    (left : Bracket) : Prop
  | intro {a b : Epoch} {v w : Float} {s₀ s : S} {before halvings : List (Call S)}
    (consecutive : [a, b] <:+: samples settings.maxCheckInterval start finish)
    (early : [.sample a s₀, .value s₀ (.ok v)] <:+: before) (crosses : Crosses v w)
    (halved : Bracket.HalvedTo settings.threshold settings.maxIterationCount.toNat ⟨a, v, b⟩
      halvings left)
    (wide : ¬ left.width ≤ settings.threshold)
    (calls : calls = before ++ .sample b s :: .value s (.ok w) :: halvings)

/-- A search that starts a sample earlier runs out of bisections in the same way. -/
theorem Exhausts.of_next {settings : Settings} {start finish : Epoch} {calls : List (Call S)}
    {left : Bracket} (hahead : start < finish)
    (h : Exhausts settings (nextSample settings.maxCheckInterval finish start) finish calls left) :
    Exhausts settings start finish calls left := by
  obtain ⟨consecutive, early, crosses, halved, wide, hcalls⟩ := h
  refine ⟨?_, early, crosses, halved, wide, hcalls⟩
  rw [samples, samplesAfter_of_lt _ hahead]
  exact consecutive.trans (List.suffix_cons _ _).isInfix

/-- A scan of finite epochs that fails, although no value does, runs out of bisections. Its first
sample was looked at before. -/
theorem Scans.exhausts {settings : Settings} {finish a : Epoch} {v : Float} {calls : List (Call S)}
    {r : Except EventError (List (Occurrence S))} (h : Scans settings finish a v calls r)
    (ha : a.IsFinite) (hf : finish.IsFinite) (hsound : ∀ c ∈ calls, c.failure? = none)
    {e : EventError} (he : r = .error e) {before : List (Call S)} {s₀ : S}
    (hbefore : [.sample a s₀, .value s₀ (.ok v)] <:+: before) :
    e = .convergenceFailure settings.maxIterationCount ∧
      ∃ left, Exhausts settings a finish (before ++ calls) left := by
  induction h generalizing before s₀ with
  | done | stopped => cases he
  | failed => cases hsound _ (List.mem_cons_of_mem _ List.mem_cons_self)
  | @quiet a _ s w calls _ ahead _ _ ih =>
    obtain ⟨hb, -, -⟩ := nextSample_between settings.maxCheckInterval ha hf ahead
    simp only [List.forall_mem_cons] at hsound
    -- the look at this sample is among the calls before the next one
    obtain ⟨rfl, left, hleft⟩ := ih hb hsound.2.2 he
      (List.suffix_append before [.sample _ s, .value s (.ok w)]).isInfix
    refine ⟨rfl, left, .of_next ahead ?_⟩
    rwa [List.append_assoc] at hleft
  | @unresolved a _ _ _ _ _ ahead crosses narrows =>
    obtain ⟨hb, hab, -⟩ := nextSample_between settings.maxCheckInterval ha hf ahead
    obtain rfl := Except.error.inj he
    simp only [List.forall_mem_cons] at hsound
    obtain ⟨rfl, left, hleft, hwide⟩ :=
      narrows.halvedTo (.of_place_lt ha hb hab) hsound.2.2 rfl
    refine ⟨rfl, left, .intro ?_ hbefore crosses hleft hwide rfl⟩
    rw [samples, samplesAfter_of_lt _ ahead]
    exact (List.prefix_append [a, _] _).isInfix
  | @found a _ s w calls later r event ahead _ _ _ _ ih =>
    obtain ⟨hb, -, -⟩ := nextSample_between settings.maxCheckInterval ha hf ahead
    simp only [List.forall_mem_cons, List.forall_mem_append] at hsound
    cases r with
    | ok => cases he
    | error =>
      let look : List (Call S) := [.sample (nextSample settings.maxCheckInterval finish a) s,
        .value s (.ok w)]
      have hlook : look <:+: before ++ look ++ (calls ++ event.calls) := ⟨before, _, rfl⟩
      obtain ⟨rfl, left, hleft⟩ := ih hb hsound.2.2.2.2 he hlook
      refine ⟨rfl, left, .of_next ahead ?_⟩
      simpa only [look, List.append_assoc, List.cons_append, List.nil_append] using hleft

/-! ### Searches -/

namespace Detector

variable {ι κ τ : Type} [Indicator ι S] [Snapshot S] [CustomHandler κ S τ] [Initializable ι S τ]

/-- Why a search gives up. If the search of a finite interval fails although no value does, whatever
the trajectory is, then it fails to converge: between two consecutive samples it has made all
bisections that its detector permits. Each of them divides a bracket that is wider than the
threshold, with an epoch strictly inside, and the last one leaves a bracket that is still wider than
the threshold. -/
theorem locate_exhausts (d : Detector ι κ) (trajectory : Epoch → StateM τ S) {start finish : Epoch}
    (hs : start.IsFinite) (hf : finish.IsFinite) (h : start < finish) {m : Memory τ}
    (hsound : ∀ c ∈ d.calls trajectory start finish m, c.failure? = none) {e : EventError}
    (he : ((d.locate trajectory start finish).run m).1.1 = .error e) :
    e = .convergenceFailure d.settings.maxIterationCount ∧
      ∃ left, Exhausts d.settings start finish (d.calls trajectory start finish m) left := by
  have hproceeds := d.proceeds_locate trajectory (Epoch.Precedes.mk hs hf h).not_le m
  rw [he] at hproceeds
  generalize d.calls trajectory start finish m = calls at hproceeds hsound
  cases hproceeds with
  | failed => cases hsound _ (List.mem_cons_of_mem _ List.mem_cons_self)
  | scanned scans =>
    simp only [List.forall_mem_cons] at hsound
    exact scans.exhausts hs hf hsound.2.2 rfl (List.infix_refl _)

/-! ### An edge far away -/

/-- An epoch so far from the reference instant that the next ones are two seconds apart. -/
def far : Epoch := ⟨10000000000000000.0⟩

/-- The epoch next to `far`. -/
def farther : Epoch := ⟨10000000000000002.0⟩

/-- The epoch next to `farther`. -/
def farthest : Epoch := ⟨10000000000000004.0⟩

/-- A state whose component is raised from `farther` on. -/
def farEdge (t : Epoch) : TrajectoryState := ⟨t, [if t < farther then 0.0 else 1.0]⟩

theorem samplesAfter_farEdge : samplesAfter 4.0 farthest far = [farthest] := by
  rw [samplesAfter_of_lt _ (by decide), show nextSample 4.0 farthest far = farthest by decide,
    samplesAfter_of_not_lt _ (by decide)]

/-- One bisection is not enough to get to a threshold of one second. -/
theorem answer_farEdge :
    raisedOnce.answer farEdge far farthest = .error (.convergenceFailure 1) :=
  answer_eq raisedOnce farEdge (by decide) rfl samplesAfter_farEdge

/-- The calls of a search for the edge that permits one bisection. -/
def farCalls : List (Call TrajectoryState) :=
  raisedOnce.calls (fun t => (pure (farEdge t) : StateM Unit _)) far farthest ⟨.empty, ()⟩

/-- The search looks at both ends of the interval and at the edge. -/
theorem farCalls_eq :
    farCalls = [.sample far (farEdge far), .value (farEdge far) (.ok (-0.5)),
      .sample farthest (farEdge farthest), .value (farEdge farthest) (.ok 0.5),
      .sample farther (farEdge farther), .value (farEdge farther) (.ok 0.5)] :=
  calls_eq raisedOnce farEdge (by decide) rfl samplesAfter_farEdge

/-- No value fails. -/
theorem failure_of_mem_farCalls : ∀ c ∈ farCalls, c.failure? = none := by
  rw [farCalls_eq]
  simp [Call.failure?]

/-- The search for the edge gives up once it has made the one bisection that is permitted. -/
theorem locate_exhausts_farEdge : ∃ left, Exhausts once far farthest farCalls left :=
  (locate_exhausts raisedOnce _ (by decide) (by decide) (by decide) failure_of_mem_farCalls
    answer_farEdge).2

/-- After that bisection, the search leaves the bracket before the edge, and nothing else. -/
theorem exhausts_farEdge_iff {left : Bracket} :
    Exhausts once far farthest farCalls left ↔ left = ⟨far, -0.5, farther⟩ := by
  have hmid : (⟨far, -0.5, farthest⟩ : Bracket).midpoint = farther := by decide
  have hhalf : (⟨far, -0.5, farthest⟩ : Bracket).half 0.5 = ⟨far, -0.5, farther⟩ := by decide
  constructor
  · intro h
    cases h with
    | @intro a b v w s₀ s before halvings _ early _ halved _ hcalls =>
    cases halved with
    | half _ _ _ later =>
    cases later
    rw [farCalls_eq] at hcalls
    obtain ⟨x, y, rfl⟩ : ∃ x y, before = [x, y] := by
      rw [← List.length_eq_two]
      simpa using (congrArg List.length hcalls).symm
    simp only [List.cons_append, List.nil_append, List.cons.injEq, Call.sample.injEq,
        Call.value.injEq, Except.ok.injEq] at hcalls
    obtain ⟨rfl, rfl, ⟨rfl, -⟩, -, -, ⟨-, rfl⟩, -⟩ := hcalls
    have hearly := early.eq_of_length (by simp)
    simp only [List.cons.injEq, Call.sample.injEq, Call.value.injEq, Except.ok.injEq] at hearly
    obtain ⟨⟨rfl, -⟩, ⟨-, rfl⟩, -⟩ := hearly
    exact hhalf
  · rintro rfl
    have hhalved : Bracket.HalvedTo 1.0 1 ⟨far, -0.5, farthest⟩
        [.sample farther (farEdge farther), .value (farEdge farther) (.ok 0.5)]
        ⟨far, -0.5, farther⟩ := by
      rw [← hhalf, ← hmid]
      exact .half (by decide) (by decide) (by decide) .refl
    have hsamples : [far, farthest] <:+: samples 4.0 far farthest := by
      simp only [samples, samplesAfter_farEdge, List.infix_refl]
    exact .intro hsamples (List.infix_refl _) (by decide) hhalved (by decide) farCalls_eq

/-- A search may give up a bracket without any epoch strictly inside: no value fails, the search
does not converge, and the one bracket that is left after the bisection that is permitted has
neighbours for its ends. -/
theorem locate_gives_up_neighbours :
    raisedOnce.settings.Valid ∧ far.IsFinite ∧ farthest.IsFinite ∧ far < farthest ∧
      raisedOnce.answer farEdge far farthest = .error (.convergenceFailure 1) ∧
      (∀ c ∈ farCalls, c.failure? = none) ∧
      ∃ left, (∀ b, Exhausts raisedOnce.settings far farthest farCalls b ↔ b = left) ∧
        left.early.Adjacent left.late :=
  ⟨by decide, by decide, by decide, by decide, answer_farEdge, failure_of_mem_farCalls,
    ⟨far, -0.5, farther⟩, fun _ => exhausts_farEdge_iff,
    (Epoch.adjacent_iff rfl rfl).2 (by decide)⟩

end Detector

end TrajectoryEvents
