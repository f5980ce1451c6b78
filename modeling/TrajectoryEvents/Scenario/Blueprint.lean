import TrajectoryEvents.Detector.Basic

/-!
# Blueprints

A blueprint describes a detector: which indicators it has, how they are combined, and which settings
and handlers are put in. It can also call for a detector that is kept in a store, which is taken out
for good. Building goes through a blueprint depth first and from left to right, and ends with the
first failure; what was taken out of the store by then is lost.
-/

namespace TrajectoryEvents

/-- Detectors kept by name. -/
structure DetectorStore (ι κ : Type) where
  entries : List (String × Detector ι κ)

namespace DetectorStore

variable {ι κ : Type}

/-- A store without detectors. -/
def empty : DetectorStore ι κ := ⟨[]⟩

/-- The detector kept under a name. -/
def find? (store : DetectorStore ι κ) (id : String) : Option (Detector ι κ) :=
  store.entries.lookup id

/-- Keep no detector under a name. -/
def erase (store : DetectorStore ι κ) (id : String) : DetectorStore ι κ :=
  ⟨store.entries.filter (·.1 != id)⟩

/-- Keep a detector under a name, instead of any earlier one. -/
def insert (store : DetectorStore ι κ) (id : String) (d : Detector ι κ) : DetectorStore ι κ :=
  ⟨(id, d) :: (store.erase id).entries⟩

end DetectorStore

/-- Why a detector cannot be had. -/
inductive BuildError
  /-- No detector is kept under the name. -/
  | noSuchDetector (id : String)
  /-- The detector cannot be composed or rebuilt. -/
  | refused (error : EventError)
deriving DecidableEq

/-- The description of a detector. -/
inductive Blueprint (ι κ : Type)
  /-- A single indicator. -/
  | indicator (indicator : ι)
  /-- The detector kept under a name, which is taken out of the store. -/
  | stored (id : String)
  /-- A composite. -/
  | composite (reducer : Reducer) (operands : List (Blueprint ι κ))
  /-- A detector negated several times. -/
  | negation (times : Nat) (original : Blueprint ι κ)
  /-- A detector rebuilt with settings that are validated first. -/
  | configured (original : Blueprint ι κ) (settings : Settings) (handler : Handler κ)
  /-- A detector rebuilt in one of the other ways. -/
  | rebuilt (original : Blueprint ι κ) (call : Rebuild κ)

namespace Blueprint

variable {ι κ : Type}

/-- Building a detector changes the store, also when it fails. -/
abbrev BuildM (ι κ : Type) := ExceptT BuildError (StateM (DetectorStore ι κ))

/-- A result that may have been refused. -/
def accept {α : Type} : Except EventError α → BuildM ι κ α
  | .ok a => return a
  | .error e => throw (.refused e)

/-- Take the detector kept under a name out of the store. -/
def withdraw (id : String) : BuildM ι κ (Detector ι κ) := do
  let store ← get
  match store.find? id with
  | some d =>
    set (store.erase id)
    return d
  | none => throw (.noSuchDetector id)

mutual

/-- Build the detector that a blueprint describes. -/
def build : Blueprint ι κ → BuildM ι κ (Detector ι κ)
  | .indicator i => return .ofIndicator i
  | .stored id => withdraw id
  | .composite reducer operands => do
    let ds ← buildAll operands
    accept (Detector.compose reducer ds)
  | .negation times original => do
    let d ← build original
    return times.repeat Detector.not d
  | .configured original s h => do
    let d ← build original
    let s ← accept s.validate
    return d.withSettings s h
  | .rebuilt original call => do
    let d ← build original
    accept (d.rebuild call)

/-- Build the detectors that several blueprints describe, in order. -/
def buildAll : List (Blueprint ι κ) → BuildM ι κ (List (Detector ι κ))
  | [] => return []
  | b :: bs => do
    let d ← build b
    let ds ← buildAll bs
    return d :: ds

end

end Blueprint

end TrajectoryEvents
