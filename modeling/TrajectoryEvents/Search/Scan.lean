import TrajectoryEvents.Search.Bisection
import TrajectoryEvents.Search.Sampling

/-!
# Scanning for events

A scan walks along the sample epochs. Whenever the value crosses zero between two samples, the
crossing is narrowed down and reported to the handler. A decision to stop ends the scan; all others
let it go on along the same trajectory. A search is a scan from the start of an interval on, with
the value there.
-/

namespace TrajectoryEvents

/-- Whether a value crosses zero between two samples. Landing exactly on zero is a crossing and
leaving zero is not, so that a zero at a sample is reported once. -/
def Crosses (a b : Float) : Prop := a < 0.0 ∧ 0.0 ≤ b ∨ 0.0 < a ∧ b ≤ 0.0

instance (a b : Float) : Decidable (Crosses a b) := inferInstanceAs (Decidable (_ ∨ _))

/-- An event found by a search. -/
structure Occurrence (S : Type) where
  /-- The epoch of the event. -/
  epoch : Epoch
  /-- The state at that epoch. -/
  state : S
  /-- Whether the value went up. -/
  increasing : Bool
  /-- The decision of the handler. -/
  action : Action
  /-- The replacement state, if the handler asked for one. -/
  reset : Option S
deriving DecidableEq

namespace Probe

variable {σ S : Type}

/-- Ask for a decision about an event, and for a replacement state if that is the decision. -/
def report (p : Probe σ S) (epoch : Epoch) (state : S) (increasing : Bool) :
    StateM σ (Occurrence S) := do
  let action ← p.consult state increasing
  let reset ← if action = .resetState then some <$> p.replace state else pure none
  return { epoch, state, increasing, action, reset }

/-- The events after the sample epoch `a`, at which the value is `value`. -/
def scan (p : Probe σ S) (settings : Settings) (finish a : Epoch) (value : Float) :
    SearchM σ (List (Occurrence S)) :=
  if _ : a < finish then do
    let b := nextSample settings.maxCheckInterval finish a
    let s ← p.sample b
    let next ← p.g s
    if Crosses value next then
      let (epoch, state) ← p.refine settings ⟨a, value, b⟩
      let found ← p.report epoch state (decide (value < next))
      if found.action = .stop then return [found]
      else
        let later ← p.scan settings finish b next
        return found :: later
    else p.scan settings finish b next
  else return []
termination_by a.remaining finish
decreasing_by all_goals exact remaining_nextSample_lt _ ‹_›

/-- The events of an interval, from the state at its start on. -/
def search (p : Probe σ S) (settings : Settings) (start finish : Epoch) (s : S) :
    SearchM σ (List (Occurrence S)) := do
  let value ← p.g s
  p.scan settings finish start value

end Probe

end TrajectoryEvents
