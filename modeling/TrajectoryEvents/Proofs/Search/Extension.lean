import TrajectoryEvents.Proofs.Search.Exactness
import TrajectoryEvents.Proofs.Search.History

/-!
# More bisections do not change the answer

A bisection that succeeds makes the same calls if more halvings are permitted, and ends at the same
epoch: at the width that is looked at once more after the last halving, the next round would stop as
well. A search that succeeds therefore answers the same if more bisections are permitted, as long as
the handler does not look at the settings.

## Main definitions

* `Extends`: computations of which the second answers what the first one does, unless that fails.
* `CustomHandler.IgnoresSettings`: a handler whose answers do not depend on settings.

## Main results

* `Probe.Alike.bisect_extends`, `Probe.Alike.scan_extends`: bisections and scans that succeed answer
  the same with more halvings.
* `Detector.locate_withMaxIterationCount`: so do searches.
-/

namespace TrajectoryEvents

variable {σ σ' S τ α β : Type}

/-! ### Computations -/

/-- If the first computation succeeds, then the second one, in a memory that is related by `R`,
succeeds with the same answer, and leaves a related memory. -/
def Extends (R : σ → σ' → Prop) (x : SearchM σ α) (x' : SearchM σ' α) : Prop :=
  ∀ m m', R m m' → ∀ a, (x.run m).1 = .ok a → (x'.run m').1 = .ok a ∧ R (x.run m).2 (x'.run m').2

namespace Extends

variable {R : σ → σ' → Prop}

/-- Computations in step extend each other. -/
theorem of_inStep {x : SearchM σ α} {x' : SearchM σ' α} (h : InStep R x.run x'.run) :
    Extends R x x' := by
  intro m m' hm a ha
  obtain ⟨hanswer, hleft⟩ := h m m' hm
  exact ⟨hanswer ▸ ha, hleft⟩

/-- Anything extends a failure. -/
theorem throw (e : EventError) (x' : SearchM σ' α) :
    Extends R (MonadExcept.throw e : SearchM σ α) x' := by
  intro m m' _ a ha
  cases ha

/-- Computations that go on with ones that extend each other do so as well. -/
theorem bind {x : SearchM σ α} {x' : SearchM σ' α} {k : α → SearchM σ β} {k' : α → SearchM σ' β}
    (hx : Extends R x x') (hk : ∀ a, Extends R (k a) (k' a)) :
    Extends R (x >>= k) (x' >>= k') := by
  intro m m' hm b hb
  have hbind : (x >>= k).run m = (ExceptT.bindCont k (x.run m).1).run (x.run m).2 := rfl
  have hbind' : (x' >>= k').run m' = (ExceptT.bindCont k' (x'.run m').1).run (x'.run m').2 := rfl
  rw [hbind] at hb ⊢
  rw [hbind']
  cases hr : (x.run m).1 with
  | error e =>
    rw [hr] at hb
    cases hb
  | ok a =>
    obtain ⟨hanswer, hleft⟩ := hx m m' hm a hr
    rw [hr] at hb
    rw [hanswer]
    exact hk a _ _ hleft b hb

/-- So do computations that cannot fail, and go on so. -/
theorem bindLift {x : StateM σ α} {x' : StateM σ' α} {k : α → SearchM σ β} {k' : α → SearchM σ' β}
    (hx : InStep R x x') (hk : ∀ a, Extends R (k a) (k' a)) :
    Extends R (liftM x >>= k : SearchM σ β) (liftM x' >>= k' : SearchM σ' β) := by
  refine .bind (fun m m' hm a ha => ?_) hk
  obtain ⟨hanswer, hleft⟩ := hx m m' hm
  exact ⟨(congrArg Except.ok hanswer).symm.trans ha, hleft⟩

end Extends

/-! ### Bisections and scans -/

namespace Probe

/-- A bracket that is narrow already is not halved, however many halvings are permitted. -/
theorem bisect_of_narrow (p : Probe σ S) {threshold : Float} (permitted : UInt64) (n : ℕ)
    {b : Bracket} (h : b.width ≤ threshold) : p.bisect threshold permitted n b = p.lateEnd b := by
  cases n <;> simp only [bisect, if_pos h]

namespace Alike

variable {R : σ → σ' → Prop} {p : Probe σ S} {p' : Probe σ' S} (h : Alike R p p')
include h

/-- A bisection that succeeds ends at the same epoch if more halvings are permitted. -/
theorem bisect_extends (threshold : Float) (permitted permitted' : UInt64) {n n' : ℕ}
    (hn : n ≤ n') (b : Bracket) :
    Extends R (p.bisect threshold permitted n b) (p'.bisect threshold permitted' n' b) := by
  induction n generalizing n' b with
  | zero =>
    by_cases hw : b.width ≤ threshold
    · rw [bisect_of_narrow p _ _ hw, bisect_of_narrow p' _ _ hw]
      exact .of_inStep (h.lateEnd b)
    · simp only [Probe.bisect, if_neg hw]
      exact .throw _ _
  | succ n ih =>
    obtain ⟨n', rfl⟩ := Nat.exists_eq_add_of_le' (Nat.one_le_of_lt hn)
    simp only [Probe.bisect]
    split
    · exact .of_inStep (h.lateEnd b)
    split
    · exact .of_inStep (h.lateEnd b)
    refine .bindLift (h.sample b.midpoint) fun s => .bind (.of_inStep (h.value s)) fun v => ?_
    split
    · exact .of_inStep (.pure _)
    · exact ih (Nat.le_of_succ_le_succ hn) (b.half v)

/-- A scan that succeeds answers the same if more bisections are permitted. -/
theorem scan_extends (settings : Settings) {n n' : UInt64} (hn : n ≤ n') (finish a : Epoch)
    (v : Float) :
    Extends R (p.scan { settings with maxIterationCount := n } finish a v)
      (p'.scan { settings with maxIterationCount := n' } finish a v) := by
  induction a using sampling_induction settings.maxCheckInterval finish generalizing v with
  | next a ha ih =>
    rw [Probe.scan, dif_pos ha, Probe.scan, dif_pos ha]
    refine .bindLift (h.sample _) fun s => .bind (.of_inStep (h.value s)) fun w => ?_
    split
    · refine .bind (h.bisect_extends _ _ _ hn _) fun e => .bindLift (h.report _ _ _) fun event => ?_
      split
      · exact .of_inStep (.pure _)
      · exact .bind (ih w) fun later => .of_inStep (.pure (Except.ok (event :: later)))
    · exact ih w
  | done a ha =>
    rw [Probe.scan, dif_neg ha, Probe.scan, dif_neg ha]
    exact .of_inStep (.pure _)

end Alike

end Probe

/-! ### Handlers -/

/-- Memories with the same recordings, and with memories of the custom handlers that are related. -/
structure Memory.Alike (R : τ → τ → Prop) (m m' : Memory τ) : Prop where
  recordings : m.recordings = m'.recordings
  custom : R m.custom m'.custom

/-- Computations of the custom handlers do not see the recordings. -/
theorem InStep.withCustom {R : τ → τ → Prop} {x x' : StateM τ α} (h : InStep R x x') :
    InStep (Memory.Alike R) (Memory.withCustom x) (Memory.withCustom x') := by
  intro m m' hm
  obtain ⟨hanswer, hleft⟩ := h _ _ hm.custom
  exact ⟨hanswer, hm.recordings, hleft⟩

/-- A handler of one's own whose answers do not depend on the settings of the detector. It may take
note of them: `R` relates memories that make no difference to its answers. -/
structure CustomHandler.IgnoresSettings {κ : Type} (S : Type) [CustomHandler κ S τ] (handler : κ)
    (R : τ → τ → Prop) : Prop where
  eventOccurred : ∀ (s : S) (g : S → Except EventError Float) (settings settings' : Settings)
    (increasing : Bool),
    InStep R (CustomHandler.eventOccurred handler s ⟨settings, g⟩ increasing)
      (CustomHandler.eventOccurred handler s ⟨settings', g⟩ increasing)
  resetState : ∀ (s : S) (g : S → Except EventError Float) (settings settings' : Settings),
    InStep R (CustomHandler.resetState handler ⟨settings, g⟩ s)
      (CustomHandler.resetState handler ⟨settings', g⟩ s)

/-- A scripted handler takes note of the settings, and ignores them. -/
theorem Script.ignoresSettings (script : Script) :
    CustomHandler.IgnoresSettings TrajectoryState script
      (SameCache (Journal.used · script.number)) where
  eventOccurred s _ _ _ := script.inStep_eventOccurred s _ _
  resetState s _ _ _ := script.inStep_resetState s _ _

section Handler

variable {κ : Type} [CustomHandler κ S τ] {R : τ → τ → Prop} {handler : Handler κ}
  (h : ∀ k, handler = .custom k → CustomHandler.IgnoresSettings S k R)
include h

/-- The decisions of the given handlers do not depend on settings. -/
theorem Handler.inStep_eventOccurred [Snapshot S] (s : S) (g : S → Except EventError Float)
    (settings settings' : Settings) (increasing : Bool) :
    InStep (Memory.Alike R) (handler.eventOccurred s ⟨settings, g⟩ increasing)
      (handler.eventOccurred s ⟨settings', g⟩ increasing) := by
  cases handler with
  | custom k => exact ((h k rfl).eventOccurred s g settings settings' increasing).withCustom
  | recordAndContinue recorder =>
    intro m m' hm
    exact ⟨rfl, congrArg (Recordings.record · recorder _) hm.recordings, hm.custom⟩
  | continueOnEvent | stopOnEvent | stopOnIncreasing | stopOnDecreasing => exact .pure _

/-- Nor do the states that they put in. -/
theorem Handler.inStep_resetState (s : S) (g : S → Except EventError Float)
    (settings settings' : Settings) :
    InStep (Memory.Alike R) (handler.resetState ⟨settings, g⟩ s)
      (handler.resetState ⟨settings', g⟩ s) := by
  cases handler with
  | custom k => exact ((h k rfl).resetState s g settings settings').withCustom
  | continueOnEvent | stopOnEvent | stopOnIncreasing | stopOnDecreasing | recordAndContinue =>
    exact .pure _

end Handler

/-! ### Searches -/

namespace Detector

variable {ι κ : Type} [Indicator ι S] [Snapshot S] [CustomHandler κ S τ] {R : τ → τ → Prop}

/-- What is asked of a detector does not depend on its settings, if its handler ignores them. -/
theorem alike_probe (d : Detector ι κ) {handler : Handler κ}
    (hd : ∀ k, handler = .custom k → CustomHandler.IgnoresSettings S k R)
    {trajectory : Epoch → StateM τ S} (htrajectory : ∀ t, InStep R (trajectory t) (trajectory t))
    (settings settings' : Settings) :
    Probe.Alike (Memory.Alike R) ((d.withSettings settings handler).probe trajectory)
      ((d.withSettings settings' handler).probe trajectory) where
  sample t := (htrajectory t).withCustom
  value s m m' hm := by
    simp only [probe, g_withSettings]
    exact ⟨rfl, hm⟩
  consult s increasing := by
    simp only [probe, handler_withSettings, view_withSettings]
    exact Handler.inStep_eventOccurred hd s d.g settings settings' increasing
  replace s := by
    simp only [probe, handler_withSettings, view_withSettings]
    exact Handler.inStep_resetState hd s d.g settings settings'

/-- A search of a prepared detector that succeeds answers the same if more bisections are
permitted. -/
theorem search_extends (d : Detector ι κ) {handler : Handler κ}
    (hd : ∀ k, handler = .custom k → CustomHandler.IgnoresSettings S k R)
    {trajectory : Epoch → StateM τ S} (htrajectory : ∀ t, InStep R (trajectory t) (trajectory t))
    (settings : Settings) {n n' : UInt64} (hn : n ≤ n') (start finish : Epoch) (s : S) :
    Extends (Memory.Alike R)
      ((d.withSettings { settings with maxIterationCount := n } handler).search trajectory start
        finish s)
      ((d.withSettings { settings with maxIterationCount := n' } handler).search trajectory start
        finish s) := by
  have halike := d.alike_probe hd htrajectory { settings with maxIterationCount := n }
    { settings with maxIterationCount := n' }
  rw [search, search, settings_withSettings, settings_withSettings]
  exact .bind (.of_inStep (halike.value s)) fun v => halike.scan_extends settings hn finish start v

variable [Initializable ι S τ]

/-- The number of bisections that are permitted decides whether a search fails, and never what it
answers. Let the answers of the handler not depend on the settings of the detector: any memories
that `R` relates make no difference to them, and none to the states of the trajectory. If the search
of a detector that permits `n` bisections succeeds, then so does the search of the detector that
permits more of them, from the same memory and with the same events; the recorders hold the same. -/
theorem locate_withMaxIterationCount (d : Detector ι κ) (hv : d.settings.Valid) {n n' : UInt64}
    (hn : 0 < n) (hle : n ≤ n') (hrefl : ∀ c, R c c)
    (hd : ∀ k, d.handler = .custom k → CustomHandler.IgnoresSettings S k R)
    {trajectory : Epoch → StateM τ S} (htrajectory : ∀ t, InStep R (trajectory t) (trajectory t))
    (start finish : Epoch) (m : Memory τ) :
    ∃ d₁ d₂, d.withMaxIterationCount n = .ok d₁ ∧ d.withMaxIterationCount n' = .ok d₂ ∧
      ∀ events, ((d₁.locate trajectory start finish).run m).1.1 = .ok events →
        ((d₂.locate trajectory start finish).run m).1.1 = .ok events ∧
          ((d₁.locate trajectory start finish).run m).2.recordings =
            ((d₂.locate trajectory start finish).run m).2.recordings := by
  have hn' : 0 < n' := UInt64.lt_of_lt_of_le hn hle
  refine ⟨_, _, withMaxIterationCount_eq hv hn, withMaxIterationCount_eq hv hn', fun es hes => ?_⟩
  by_cases h : finish ≤ start
  · rw [run_locate_of_le _ _ h] at hes
    cases hes
  let m₁ := (Memory.withCustom (trajectory start) m).2
  let d' := ((d.init (trajectory start m.custom).1 finish).run m₁).1
  let m₂ := ((d.init (trajectory start m.custom).1 finish).run m₁).2
  -- both searches prepare the same detector, except for its settings, and leave the same memory
  have hrun (n : UInt64) := (d.withSettings { d.settings with maxIterationCount := n }
    d.handler).run_locate_of_init h (d.run_init_withSettings _ (trajectory start m.custom).1 finish
      m₁)
  have hextends := d'.search_extends hd htrajectory d.settings hle start finish
    (trajectory start m.custom).1
  rw [hrun] at hes
  obtain ⟨hanswer, hleft⟩ := hextends m₂ m₂ ⟨rfl, hrefl _⟩ es hes
  rw [hrun, hrun]
  exact ⟨hanswer, hleft.recordings⟩

/-! ### A pulse and a script -/

/-- A detector that is positive while the component is raised, with a script. -/
def scripted : Detector ComponentThreshold Script :=
  .atomic ⟨0, 0.5⟩ ⟨1.0, 0.5, 100⟩ (.custom ⟨0, "script", [.resetState, .stop], some 2.0⟩)

/-- The same detector, permitted one bisection, finds both edges of the pulse. -/
theorem run_locate_scripted :
    (((scripted.withSettings ⟨1.0, 0.5, 1⟩ scripted.handler).locate
        (fun t => (pure (pulse t) : StateM Journal _)) ⟨0.0⟩ ⟨2.0⟩).run ⟨.empty, .empty⟩).1.1 =
      .ok [⟨⟨0.5⟩, pulse ⟨0.5⟩, true, .resetState, some ⟨⟨0.5⟩, [2.0]⟩⟩,
        ⟨⟨2.0⟩, pulse ⟨2.0⟩, false, .stop, none⟩] := by
  rw [run_locate_eq_of_init (scripted.withSettings ⟨1.0, 0.5, 1⟩ scripted.handler) pulse (by decide)
    rfl samplesAfter_pulse]
  rfl

/-- It finds the same if it is permitted a hundred of them. -/
theorem locate_withMaxIterationCount_pulse :
    ∃ d₁ d₂ events, scripted.withMaxIterationCount 1 = .ok d₁ ∧
      scripted.withMaxIterationCount 100 = .ok d₂ ∧ events.length = 2 ∧
      ((d₁.locate (fun t => (pure (pulse t) : StateM Journal _)) ⟨0.0⟩ ⟨2.0⟩).run
        ⟨.empty, .empty⟩).1.1 = .ok events ∧
      ((d₂.locate (fun t => (pure (pulse t) : StateM Journal _)) ⟨0.0⟩ ⟨2.0⟩).run
        ⟨.empty, .empty⟩).1.1 = .ok events := by
  have hd : ∀ k, scripted.handler = .custom k → CustomHandler.IgnoresSettings TrajectoryState k
      (SameCache (Journal.used · 0)) := by
    rintro _ ⟨⟩
    exact Script.ignoresSettings _
  have hrefl : ∀ c, SameCache (Journal.used · 0) c c := fun _ => rfl
  have htrajectory (t : Epoch) : InStep (SameCache (Journal.used · 0))
      (pure (pulse t) : StateM Journal _) (pure (pulse t)) := .pure _
  have hn : (0 : UInt64) < 1 := by decide
  have hle : (1 : UInt64) ≤ 100 := by decide
  obtain ⟨d₁, d₂, h₁, h₂, hmore⟩ := locate_withMaxIterationCount scripted (by decide) hn hle
    hrefl hd htrajectory ⟨0.0⟩ ⟨2.0⟩ ⟨.empty, .empty⟩
  have hrun : ((d₁.locate (fun t => (pure (pulse t) : StateM Journal _)) ⟨0.0⟩ ⟨2.0⟩).run
      ⟨.empty, .empty⟩).1.1 = .ok [⟨⟨0.5⟩, pulse ⟨0.5⟩, true, .resetState, some ⟨⟨0.5⟩, [2.0]⟩⟩,
        ⟨⟨2.0⟩, pulse ⟨2.0⟩, false, .stop, none⟩] := by
    obtain rfl := Except.ok.inj h₁
    exact run_locate_scripted
  exact ⟨d₁, d₂, _, h₁, h₂, rfl, hrun, (hmore _ hrun).1⟩

end Detector

end TrajectoryEvents
