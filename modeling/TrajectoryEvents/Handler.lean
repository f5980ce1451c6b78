import TrajectoryEvents.Indicator
import TrajectoryEvents.Recordings
import TrajectoryEvents.Settings

/-!
# Event handlers

A handler is told of every event that a search locates and decides how to go on. The handlers given
here always continue, stop on some or all events, or record every event; others plug in as
instances of `CustomHandler`.

What handlers remember between two calls is kept in a `Memory`: the recordings of the recorders, and
whatever the custom handlers need, of a type `τ` of their own.
-/

namespace TrajectoryEvents

/-- The decision of a handler about a located event. -/
inductive Action
  /-- End the search at the event. -/
  | stop
  /-- Replace the state and go on. -/
  | resetState
  /-- Recompute the derivatives and go on. -/
  | resetDerivatives
  /-- Go on. -/
  | proceed
deriving DecidableEq, Repr

namespace Action

instance : Inhabited Action := ⟨proceed⟩

/-- The name of an action in configuration texts. -/
def name : Action → String
  | .stop => "Stop"
  | .resetState => "ResetState"
  | .resetDerivatives => "ResetDerivatives"
  | .proceed => "Continue"

end Action

/-- What a detector shows of itself to the handler of its events. -/
structure DetectorView (S : Type) where
  settings : Settings
  g : S → Except EventError Float

/-- Handlers of one's own. A handler takes part in a search at three points; by default it ignores
the start of a search and keeps the state that it is asked to replace. -/
class CustomHandler (κ S τ : Type) where
  /-- Prepare for a search that starts at a state and heads to an epoch. -/
  init : κ → S → Epoch → StateM τ Unit := fun _ _ _ => pure ()
  /-- Decide about an event at a state; the flag tells whether the detector's value goes up. -/
  eventOccurred : κ → S → DetectorView S → Bool → StateM τ Action
  /-- The state that replaces the given one. -/
  resetState : κ → DetectorView S → S → StateM τ S := fun _ _ s => pure s

/-- There are no handlers of one's own. -/
instance {S τ : Type} : CustomHandler Empty S τ := { eventOccurred := nofun }

/-- A handler of located events. -/
inductive Handler (κ : Type)
  /-- Always continue. -/
  | continueOnEvent
  /-- Stop on every event. -/
  | stopOnEvent
  /-- Stop on events with increasing value only. -/
  | stopOnIncreasing
  /-- Stop on events with decreasing value only. -/
  | stopOnDecreasing
  /-- Record every event and continue. The recorder is cleared at the start of each search, so that
  it holds the events of the latest one. -/
  | recordAndContinue (recorder : String)
  /-- A handler of one's own. -/
  | custom (handler : κ)
deriving DecidableEq

/-- What handlers remember. -/
structure Memory (τ : Type) where
  recordings : Recordings
  custom : τ

namespace Memory

variable {τ α : Type}

/-- A computation of the custom handlers, which does not see the recordings. -/
def withCustom (x : StateM τ α) : StateM (Memory τ) α := fun m =>
  let (a, custom) := x m.custom
  (a, { m with custom })

end Memory

namespace Handler

variable {κ S τ : Type} [CustomHandler κ S τ]

/-- Prepare for a search that starts at a state and heads to an epoch. -/
def init (h : Handler κ) (s : S) (target : Epoch) : StateM (Memory τ) Unit :=
  match h with
  | .recordAndContinue recorder =>
    modify fun m => { m with recordings := m.recordings.clear recorder }
  | .custom handler => Memory.withCustom (CustomHandler.init handler s target)
  | _ => pure ()

/-- Decide about an event at a state. -/
def eventOccurred [Snapshot S] (h : Handler κ) (s : S) (detector : DetectorView S)
    (increasing : Bool) : StateM (Memory τ) Action :=
  match h with
  | .continueOnEvent => pure .proceed
  | .stopOnEvent => pure .stop
  | .stopOnIncreasing => pure (if increasing then .stop else .proceed)
  | .stopOnDecreasing => pure (if increasing then .proceed else .stop)
  | .recordAndContinue recorder => do
    modify fun m =>
      { m with recordings := m.recordings.record recorder ⟨Snapshot.epoch s, increasing⟩ }
    return .proceed
  | .custom handler => Memory.withCustom (CustomHandler.eventOccurred handler s detector increasing)

/-- The state that replaces the given one. -/
def resetState (h : Handler κ) (detector : DetectorView S) (s : S) : StateM (Memory τ) S :=
  match h with
  | .custom handler => Memory.withCustom (CustomHandler.resetState handler detector s)
  | _ => pure s

end Handler

end TrajectoryEvents
