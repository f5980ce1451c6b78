import TrajectoryEvents.Handler

/-!
# Journals and scripted handlers

A journal notes, in order, what handlers and indicators were asked to do. A scripted handler follows
a list of actions, one for each event, and notes everything in the journal; it starts over at the
start of each search. Scripted handlers are told apart by number, and the journal keeps how far each
has come.
-/

namespace TrajectoryEvents

/-- An entry of a journal. -/
inductive JournalEntry
  /-- A handler was prepared. -/
  | handlerInit (name : String) (epoch target : Epoch)
  /-- An indicator was prepared. -/
  | indicatorInit (name : String) (epoch target : Epoch)
  /-- A handler was told of an event, with the value of the detector at the state and its
  settings. -/
  | event (name : String) (epoch : Epoch) (increasing : Bool) (value : Except EventError Float)
      (settings : Settings)

/-- What scripted handlers and indicators remember. -/
structure Journal where
  /-- The entries, the latest first. -/
  entries : List JournalEntry
  /-- How many actions each scripted handler has used up. -/
  progress : List (Nat × Nat)

namespace Journal

/-- A journal without entries. -/
def empty : Journal := ⟨[], []⟩

/-- Make an entry. -/
def note (entry : JournalEntry) : StateM Journal Unit :=
  modify fun j => { j with entries := entry :: j.entries }

/-- How many actions a scripted handler has used up. -/
def used (j : Journal) (script : Nat) : Nat := (j.progress.lookup script).getD 0

/-- Let a scripted handler have used up the given number of actions. -/
def setUsed (j : Journal) (script count : Nat) : Journal :=
  { j with progress := (script, count) :: j.progress.filter (·.1 != script) }

@[simp]
theorem used_setUsed (j : Journal) (script count : Nat) :
    (j.setUsed script count).used script = count := by
  simp [used, setUsed]

/-- The entries in order, and the journal without them. -/
def take (j : Journal) : List JournalEntry × Journal :=
  (j.entries.reverse, { j with entries := [] })

end Journal

/-- A handler that follows a list of actions. -/
structure Script where
  number : Nat
  name : String
  actions : List Action
  /-- The factor by which the components of a state that is replaced are scaled, if any. -/
  scale : Option Float
deriving DecidableEq

instance : CustomHandler Script TrajectoryState Journal where
  init script s target := do
    modify (·.setUsed script.number 0)
    Journal.note (.handlerInit script.name s.epoch target)
  eventOccurred script s detector increasing := do
    Journal.note (.event script.name s.epoch increasing (detector.g s) detector.settings)
    let j ← get
    let used := j.used script.number
    match script.actions[used]? with
    | some action =>
      set (j.setUsed script.number (used + 1))
      return action
    | none => return default
  resetState script _ s :=
    match script.scale with
    | some factor => return { s with components := s.components.map (· * factor) }
    | none => return s

end TrajectoryEvents
