import TrajectoryEvents.Detector.Locate
import TrajectoryEvents.Scenario.Blueprint
import TrajectoryEvents.Scenario.Instrument

/-!
# Sessions

A session keeps detectors by name between operations, together with what recorders, scripts and the
journal remember. An operation works on a detector that the session keeps, which then stays changed,
or on one that is built from a blueprint for this operation only.
-/

namespace TrajectoryEvents

/-- The detectors of a scenario. -/
abbrev ScenarioDetector := Detector Instrument Script

/-- What a session keeps between operations. -/
structure Session where
  detectors : DetectorStore Instrument Script
  memory : Memory Journal

/-- The detector that an operation works on. -/
inductive Subject
  /-- The detector kept under a name. -/
  | kept (id : String)
  /-- A detector built for the operation. -/
  | planned (blueprint : Blueprint Instrument Script)

/-- Operations of a session; what they change stays changed when they fail. -/
abbrev SessionM := ExceptT BuildError (StateM Session)

namespace Session

/-- A session that keeps nothing. -/
def empty : Session := ⟨.empty, ⟨.empty, .empty⟩⟩

/-- Build a detector from a blueprint. -/
def buildDetector (blueprint : Blueprint Instrument Script) : SessionM ScenarioDetector := do
  let session ← get
  let (built, detectors) := blueprint.build.run session.detectors
  set { session with detectors }
  match built with
  | .ok d => return d
  | .error e => throw e

/-- Build a detector and keep it under a name. -/
def build (id : String) (blueprint : Blueprint Instrument Script) : SessionM ScenarioDetector := do
  let d ← buildDetector blueprint
  modify fun session => { session with detectors := session.detectors.insert id d }
  return d

/-- The detector that an operation works on. -/
def detector : Subject → SessionM ScenarioDetector
  | .kept id => do
    match (← get).detectors.find? id with
    | some d => return d
    | none => throw (.noSuchDetector id)
  | .planned blueprint => buildDetector blueprint

/-- Keep what an operation has made of its detector, if the session keeps that detector. -/
def keep (subject : Subject) (d : ScenarioDetector) : SessionM Unit :=
  match subject with
  | .kept id => modify fun session => { session with detectors := session.detectors.insert id d }
  | .planned _ => pure ()

/-- Let a computation work on what the session remembers. -/
def remembering {α : Type} (x : StateM (Memory Journal) α) : SessionM α :=
  modifyGet fun session =>
    let (a, memory) := x session.memory
    (a, { session with memory })

/-- Prepare a detector for a search. -/
def init (subject : Subject) (s : TrajectoryState) (target : Epoch) : SessionM Unit := do
  let d ← detector subject
  let d ← remembering (d.init s target)
  keep subject d

/-- Tell the handler of a detector of an event, and then ask it for a replacement state, whatever it
decides. -/
def event (subject : Subject) (s : TrajectoryState) (increasing : Bool) :
    SessionM (Action × TrajectoryState) := do
  let d ← detector subject
  remembering do
    let action ← d.handler.eventOccurred s d.view increasing
    let replacement ← d.handler.resetState d.view s
    return (action, replacement)

/-- Locate the events of a detector along a trajectory of curves. -/
def locate (subject : Subject) (curves : List Curve) (start finish : Epoch) :
    SessionM (Except EventError (List (Occurrence TrajectoryState))) := do
  let d ← detector subject
  let (outcome, d) ← remembering (d.locate (fun t => pure (Curve.trajectory curves t)) start finish)
  keep subject d
  return outcome

/-- The events that a recorder holds, after clearing it if so wished. -/
def recorded (recorder : String) (clear : Bool) : SessionM (List RecordedEvent) :=
  remembering do
    if clear then modify fun m => { m with recordings := m.recordings.clear recorder }
    return (← get).recordings.events recorder

/-- Take all entries out of the journal. -/
def takeEntries : SessionM (List JournalEntry) :=
  remembering (Memory.withCustom fun journal => journal.take)

end Session

end TrajectoryEvents
