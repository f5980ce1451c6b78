import TrajectoryEvents.Detector.Init
import TrajectoryEvents.Detector.Value
import TrajectoryEvents.Search.Scan

/-!
# Locating the events of a detector

`Detector.locate` finds all events of a detector along a trajectory, given as a function of time.
The trajectory is fixed: replacement states are reported, and the search goes on along it.

It is an instance of `Detector.locateBy`, which leaves open what is asked on the way and with what
memory, so that a search can also keep an account of itself.
-/

namespace TrajectoryEvents

namespace Detector

variable {ι κ σ S : Type}

section LocateBy

variable (ask : Detector ι κ → Probe σ S)
  (prepare : Detector ι κ → S → Epoch → StateM σ (Detector ι κ)) (d : Detector ι κ)
  {start finish : Epoch} (m : σ)

/-- Find the events of a detector in an interval, whatever memory there is: `prepare` prepares a
detector, and `ask` is what the search asks of it. The detector is prepared first, and returned as
it is after the search. An interval that ends at or before its start is refused. -/
def locateBy (start finish : Epoch) :
    StateM σ (Except EventError (List (Occurrence S)) × Detector ι κ) :=
  if finish ≤ start then return (.error (.invalidInterval start finish), d)
  else do
    let s ← (ask d).sample start
    let d ← prepare d s finish
    let outcome ← ((ask d).search d.settings start finish s).run
    return (outcome, d)

/-- An interval that ends at or before its start is refused. -/
theorem run_locateBy_of_le (h : finish ≤ start) :
    (d.locateBy ask prepare start finish).run m =
      ((.error (.invalidInterval start finish), d), m) := by
  rw [locateBy, if_pos h]
  rfl

/-- A search that is not refused samples the start of the interval, prepares its detector for the
state there, and then does what the search of the prepared detector does. -/
theorem run_locateBy (h : ¬ finish ≤ start) :
    (d.locateBy ask prepare start finish).run m =
      let r := ((ask d).sample start).run m
      let q := (prepare d r.1 finish).run r.2
      let w := ((ask q.1).search q.1.settings start finish r.1).run q.2
      ((w.1, q.1), w.2) := by
  rw [locateBy, if_neg h]
  rfl

end LocateBy

variable {τ : Type} [Indicator ι S] [Snapshot S] [CustomHandler κ S τ]

/-- What a search asks of a detector and a trajectory: the values of the detector, and the decisions
of its own handler. -/
def probe (d : Detector ι κ) (trajectory : Epoch → StateM τ S) : Probe (Memory τ) S where
  sample t := Memory.withCustom (trajectory t)
  g s := ExceptT.mk (pure (d.g s))
  consult s increasing := d.handler.eventOccurred s d.view increasing
  replace s := d.handler.resetState d.view s

/-- The events of a prepared detector, starting from the state at the start of the interval. -/
def search (d : Detector ι κ) (trajectory : Epoch → StateM τ S) (start finish : Epoch) (s : S) :
    SearchM (Memory τ) (List (Occurrence S)) :=
  (d.probe trajectory).search d.settings start finish s

variable [Initializable ι S τ]

/-- Find the events of a detector in an interval, along a trajectory. -/
def locate (d : Detector ι κ) (trajectory : Epoch → StateM τ S) (start finish : Epoch) :
    StateM (Memory τ) (Except EventError (List (Occurrence S)) × Detector ι κ) :=
  d.locateBy (fun d => d.probe trajectory) (fun d s target => d.init s target) start finish

/-- An interval that ends at or before its start is refused, and leaves the detector as it is. -/
theorem run_locate_of_le (d : Detector ι κ) (trajectory : Epoch → StateM τ S)
    {start finish : Epoch} (h : finish ≤ start) (m : Memory τ) :
    (d.locate trajectory start finish).run m = ((.error (.invalidInterval start finish), d), m) :=
  d.run_locateBy_of_le _ _ m h

/-- A search that is not refused is the search of the prepared detector. -/
theorem run_locate (d : Detector ι κ) (trajectory : Epoch → StateM τ S) {start finish : Epoch}
    (h : ¬ finish ≤ start) (m : Memory τ) :
    (d.locate trajectory start finish).run m =
      let s := (trajectory start m.custom).1
      let r := (d.init s finish).run (Memory.withCustom (trajectory start) m).2
      let w := (r.1.search trajectory start finish s).run r.2
      ((w.1, r.1), w.2) :=
  d.run_locateBy _ _ m h

/-- The same, for a detector whose preparation is known. -/
theorem run_locate_of_init (d : Detector ι κ)
    {trajectory : Epoch → StateM τ S} {start finish : Epoch} (h : ¬ finish ≤ start)
    {m m' : Memory τ} {d' : Detector ι κ}
    (hinit : (d.init (trajectory start m.custom).1 finish).run
      (Memory.withCustom (trajectory start) m).2 = (d', m')) :
    (d.locate trajectory start finish).run m =
      (fun r : _ × Memory τ => ((r.1, d'), r.2))
        ((d'.search trajectory start finish (trajectory start m.custom).1).run m') := by
  rw [d.run_locate trajectory h]
  dsimp only
  rw [hinit]

end Detector

end TrajectoryEvents
