import TrajectoryEvents.Epoch

/-!
# Recordings

A recorder keeps the events it is told of. Recorders go by name, so that several detectors can
share one and its owner can read it back.

* `Recordings.events_record`: recording appends one event to the named recorder.
* `Recordings.events_clear`: clearing empties it.
* Both leave every other recorder alone.
-/

namespace TrajectoryEvents

/-- An event as a recorder keeps it. -/
structure RecordedEvent where
  epoch : Epoch
  /-- Whether the value of the detector went up. -/
  increasing : Bool
deriving DecidableEq

/-- The events kept by each recorder, in the order in which they were recorded. -/
structure Recordings where
  entries : List (String × List RecordedEvent)
deriving DecidableEq

namespace Recordings

/-- No recorder has kept anything. -/
def empty : Recordings := ⟨[]⟩

/-- The events that a recorder holds. -/
def events (r : Recordings) (recorder : String) : List RecordedEvent :=
  (r.entries.lookup recorder).getD []

/-- Let a recorder hold the given events. -/
def setEvents (r : Recordings) (recorder : String) (events : List RecordedEvent) : Recordings :=
  ⟨(recorder, events) :: r.entries.filter (·.1 != recorder)⟩

/-- Append an event to a recorder. -/
def record (r : Recordings) (recorder : String) (event : RecordedEvent) : Recordings :=
  r.setEvents recorder (r.events recorder ++ [event])

/-- Forget what a recorder holds. -/
def clear (r : Recordings) (recorder : String) : Recordings := r.setEvents recorder []

@[simp]
theorem events_setEvents (r : Recordings) (recorder : String) (events : List RecordedEvent) :
    (r.setEvents recorder events).events recorder = events := by
  simp [Recordings.events, setEvents]

private theorem lookup_filter_of_ne {recorder other : String} (h : other ≠ recorder)
    (entries : List (String × List RecordedEvent)) :
    (entries.filter (·.1 != recorder)).lookup other = entries.lookup other := by
  induction entries with
  | nil => rfl
  | cons entry rest ih =>
    obtain ⟨name, events⟩ := entry
    by_cases hn : name = recorder
    · subst hn
      have : (other == name) = false := beq_false_of_ne h
      simp [List.lookup_cons, this, ih]
    · simp [hn, List.lookup_cons, ih]

theorem events_setEvents_of_ne {recorder other : String} (h : other ≠ recorder) (r : Recordings)
    (events : List RecordedEvent) :
    (r.setEvents recorder events).events other = r.events other := by
  have : (other == recorder) = false := beq_false_of_ne h
  simp [Recordings.events, setEvents, List.lookup_cons, this, lookup_filter_of_ne h]

@[simp]
theorem events_record (r : Recordings) (recorder : String) (event : RecordedEvent) :
    (r.record recorder event).events recorder = r.events recorder ++ [event] :=
  events_setEvents ..

@[simp]
theorem events_clear (r : Recordings) (recorder : String) :
    (r.clear recorder).events recorder = [] :=
  events_setEvents ..

theorem events_record_of_ne {recorder other : String} (h : other ≠ recorder) (r : Recordings)
    (event : RecordedEvent) : (r.record recorder event).events other = r.events other :=
  events_setEvents_of_ne h ..

theorem events_clear_of_ne {recorder other : String} (h : other ≠ recorder) (r : Recordings) :
    (r.clear recorder).events other = r.events other :=
  events_setEvents_of_ne h ..

end Recordings

end TrajectoryEvents
