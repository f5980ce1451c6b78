import TrajectoryEvents.Detector.Locate
import TrajectoryEvents.Proofs.Search.Account

/-!
# Searches in lockstep

Two probes may keep different memories. If they answer every question alike while their memories are
related, and leave related memories behind, then so does every computation that asks nothing else: a
bisection, a report, a scan, and a search. Of a single probe, this says that a search preserves what
every question preserves. Searches that also prepare their detectors in step stay in step.

## Main definitions

* `InStep`: computations that answer alike in related memories, and leave related memories.
* `Probe.Alike`: probes that answer every question in step.

## Main results

* `Probe.Alike.refine`, `Probe.Alike.report`, `Probe.Alike.scan`, `Probe.Alike.search`: probes that
  answer every question in step are scanned and searched in step.
* `Detector.inStep_locateBy`: intervals are searched in step if detectors are prepared in step.
-/

namespace TrajectoryEvents

variable {σ σ' S α β : Type} {R : σ → σ' → Prop}

/-! ### Computations -/

/-- Two computations that answer alike in memories that are related by `R`, and leave related
memories behind. -/
def InStep (R : σ → σ' → Prop) (x : StateM σ α) (x' : StateM σ' α) : Prop :=
  ∀ m m', R m m' → (x m).1 = (x' m').1 ∧ R (x m).2 (x' m').2

namespace InStep

theorem pure (a : α) : InStep R (pure a) (pure a) := fun _ _ h => ⟨rfl, h⟩

/-- Computations in step stay in step if they go on in step. -/
theorem bind {x : StateM σ α} {x' : StateM σ' α} {k : α → StateM σ β} {k' : α → StateM σ' β}
    (hx : InStep R x x') (hk : ∀ a, InStep R (k a) (k' a)) :
    InStep R (x >>= k) (x' >>= k') := by
  intro m m' h
  obtain ⟨hanswer, hleft⟩ := hx m m' h
  have hbind : (x >>= k) m = k (x m).1 (x m).2 := rfl
  have hbind' : (x' >>= k') m' = k' (x' m').1 (x' m').2 := rfl
  rw [hbind, hbind', hanswer]
  exact hk _ _ _ hleft

/-- Computations that may fail stay in step if they go on in step. -/
theorem bindExcept {x : SearchM σ α} {x' : SearchM σ' α} {k : α → SearchM σ β}
    {k' : α → SearchM σ' β} (hx : InStep R x.run x'.run)
    (hk : ∀ a, InStep R (k a).run (k' a).run) : InStep R (x >>= k).run (x' >>= k').run := by
  change InStep R (x.run >>= ExceptT.bindCont k) (x'.run >>= ExceptT.bindCont k')
  refine hx.bind fun r => ?_
  cases r with
  | ok a => exact hk a
  -- they have failed alike
  | error e => exact .pure (Except.error e)

/-- So do computations that cannot fail, if they go on in step with ones that may. -/
theorem bindLift {x : StateM σ α} {x' : StateM σ' α} {k : α → SearchM σ β}
    {k' : α → SearchM σ' β} (hx : InStep R x x') (hk : ∀ a, InStep R (k a).run (k' a).run) :
    InStep R (liftM x >>= k : SearchM σ β).run (liftM x' >>= k' : SearchM σ' β).run := by
  refine bindExcept (fun m m' h => ?_) hk
  obtain ⟨hanswer, hleft⟩ := hx m m' h
  exact ⟨congrArg Except.ok hanswer, hleft⟩

/-- A computation is in step with itself in equal memories with a property that it preserves. -/
theorem of_preserves {I : σ → Prop} {x : StateM σ α} (h : ∀ m, I m → I (x m).2) :
    InStep (fun m m' => m = m' ∧ I m) x x := by
  rintro m _ ⟨rfl, hm⟩
  exact ⟨rfl, rfl, h m hm⟩

/-- The other way round, a property that is preserved in lockstep is preserved. -/
theorem preserves {I : σ → Prop} {x : StateM σ α}
    (h : InStep (fun m m' => m = m' ∧ I m) x x) {m : σ} (hm : I m) : I (x m).2 :=
  (h m m ⟨rfl, hm⟩).2.2

/-- A computation answers the same next to an account that it leaves alone. -/
theorem unnoted (x : StateM σ α) :
    InStep (fun (m : σ × List β) m' => m.1 = m') (TrajectoryEvents.unnoted x) x := by
  rintro m _ rfl
  exact ⟨rfl, rfl⟩

end InStep

/-! ### Probes -/

namespace Probe

/-- Probes that answer every question in step. -/
structure Alike (R : σ → σ' → Prop) (p : Probe σ S) (p' : Probe σ' S) : Prop where
  sample : ∀ t, InStep R (p.sample t) (p'.sample t)
  value : ∀ s, InStep R (p.g s).run (p'.g s).run
  consult : ∀ s increasing, InStep R (p.consult s increasing) (p'.consult s increasing)
  replace : ∀ s, InStep R (p.replace s) (p'.replace s)

/-- A probe answers the same when it keeps an account. -/
theorem alike_recorded (p : Probe σ S) :
    Alike (fun (m : σ × List (Call S)) m' => m.1 = m') p.recorded p := by
  refine ⟨fun t => ?_, fun s => ?_, fun s increasing => ?_, fun s => ?_⟩ <;>
    · rintro m _ rfl
      exact ⟨rfl, rfl⟩

namespace Alike

variable {p : Probe σ S} {p' : Probe σ' S} (h : Alike R p p')
include h

theorem lateEnd (b : Bracket) : InStep R (p.lateEnd b).run (p'.lateEnd b).run :=
  .bindLift (h.sample b.late) fun s => .pure (Except.ok (b.late, s))

/-- A bisection asks for samples and values only. -/
theorem bisect (threshold : Float) (permitted : UInt64) (n : Nat) (b : Bracket) :
    InStep R (p.bisect threshold permitted n b).run (p'.bisect threshold permitted n b).run := by
  induction n generalizing b with
  | zero =>
    simp only [Probe.bisect]
    split
    · exact h.lateEnd b
    · exact .pure _
  | succ n ih =>
    simp only [Probe.bisect]
    split
    · exact h.lateEnd b
    split
    · exact h.lateEnd b
    refine .bindLift (h.sample b.midpoint) fun s => .bindExcept (h.value s) fun v => ?_
    split
    · exact .pure _
    · exact ih (b.half v)

theorem refine (settings : Settings) (b : Bracket) :
    InStep R (p.refine settings b).run (p'.refine settings b).run :=
  h.bisect _ _ _ b

/-- A report asks the handler. -/
theorem report (epoch : Epoch) (s : S) (increasing : Bool) :
    InStep R (p.report epoch s increasing) (p'.report epoch s increasing) := by
  intro m m' hm
  obtain ⟨haction, hasked⟩ := h.consult s increasing m m' hm
  rw [run_report, run_report, haction]
  split
  · obtain ⟨hreset, hleft⟩ := h.replace s _ _ hasked
    exact ⟨by rw [hreset], hleft⟩
  · exact ⟨rfl, hasked⟩

/-- Probes that answer every question in step are scanned in step. -/
theorem scan (settings : Settings) (finish a : Epoch) (v : Float) :
    InStep R (p.scan settings finish a v).run (p'.scan settings finish a v).run := by
  induction a using sampling_induction settings.maxCheckInterval finish generalizing v with
  | next a ha ih =>
    rw [Probe.scan, dif_pos ha, Probe.scan, dif_pos ha]
    refine .bindLift (h.sample _) fun s => .bindExcept (h.value s) fun w => ?_
    split
    · refine .bindExcept (h.refine settings _) fun e => .bindLift (h.report _ _ _) fun event => ?_
      split
      · exact .pure _
      · exact .bindExcept (ih w) fun later => .pure (Except.ok (event :: later))
    · exact ih w
  | done a ha =>
    rw [Probe.scan, dif_neg ha, Probe.scan, dif_neg ha]
    exact .pure _

/-- A search is a first value and a scan. -/
theorem search (settings : Settings) (start finish : Epoch) (s : S) :
    InStep R (p.search settings start finish s).run (p'.search settings start finish s).run :=
  .bindExcept (h.value s) fun v => h.scan settings finish start v

end Alike

end Probe

/-! ### Intervals -/

namespace Detector

variable {ι κ ι' κ' : Type} (ask : Detector ι κ → Probe σ S) (ask' : Detector ι' κ' → Probe σ' S)
  (prepare : Detector ι κ → S → Epoch → StateM σ (Detector ι κ))
  (prepare' : Detector ι' κ' → S → Epoch → StateM σ' (Detector ι' κ'))

/-- Let `turn` make detectors of others, with the same settings. If a detector and what is made of
it answer every question alike, and are prepared alike, then they are searched alike. -/
theorem inStep_locateBy (turn : Detector ι' κ' → Detector ι κ)
    (hask : ∀ d, Probe.Alike R (ask (turn d)) (ask' d))
    (hsettings : ∀ d, (turn d).settings = d.settings) (d : Detector ι' κ') {start finish : Epoch}
    (hprepare : ∀ s, InStep R (prepare (turn d) s finish) (turn <$> prepare' d s finish))
    {m : σ} {m' : σ'} (hm : R m m') :
    (((turn d).locateBy ask prepare start finish).run m).1 =
        (((d.locateBy ask' prepare' start finish).run m').1.1,
          turn ((d.locateBy ask' prepare' start finish).run m').1.2) ∧
      R (((turn d).locateBy ask prepare start finish).run m).2
        ((d.locateBy ask' prepare' start finish).run m').2 := by
  by_cases h : finish ≤ start
  · rw [run_locateBy_of_le _ _ _ _ h, run_locateBy_of_le _ _ _ _ h]
    exact ⟨rfl, hm⟩
  rw [run_locateBy _ _ _ _ h, run_locateBy _ _ _ _ h]
  dsimp only
  -- the start is sampled alike
  have hsample : (((ask (turn d)).sample start).run m).1 = (((ask' d).sample start).run m').1 ∧
      R (((ask (turn d)).sample start).run m).2 (((ask' d).sample start).run m').2 :=
    (hask d).sample start m m' hm
  generalize ((ask (turn d)).sample start).run m = r at *
  generalize ((ask' d).sample start).run m' = r' at *
  obtain ⟨s, n⟩ := r
  obtain ⟨rfl, hn⟩ := hsample
  -- the detectors are prepared alike
  have hprepared : ((prepare (turn d) r'.1 finish).run n).1 =
        turn ((prepare' d r'.1 finish).run r'.2).1 ∧
      R ((prepare (turn d) r'.1 finish).run n).2 ((prepare' d r'.1 finish).run r'.2).2 :=
    hprepare r'.1 n r'.2 hn
  generalize (prepare (turn d) r'.1 finish).run n = q at *
  generalize (prepare' d r'.1 finish).run r'.2 = q' at *
  obtain ⟨e, l⟩ := q
  obtain ⟨rfl, hl⟩ := hprepared
  -- and so is what they make of the search
  obtain ⟨hanswer, hleft⟩ := (hask q'.1).search q'.1.settings start finish r'.1 l q'.2 hl
  rw [hsettings]
  exact ⟨congrArg (·, turn q'.1) hanswer, hleft⟩

end Detector

end TrajectoryEvents
