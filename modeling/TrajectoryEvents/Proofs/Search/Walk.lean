import TrajectoryEvents.Search.Scan

/-!
# A scan as a walk along its samples

The epochs at which a scan samples are settled before it starts: they do not depend on what the
scan finds. This module writes a scan as a walk along that list, one round for each epoch, and
shows that it is the same computation.

## Main definitions

* `Probe.round`: what a scan does at one sample epoch.
* `Probe.scanAlong`: rounds at the epochs of a list, in order. A failure or a decision to stop ends
  the walk early; nothing else does.

## Main results

* `Probe.scan_eq_scanAlong`: a scan is the walk along `samplesAfter`.
* `Probe.search_eq`: a search is a first value, and the walk from there.
-/

namespace TrajectoryEvents.Probe

variable {σ S : Type}

/-- One round of a scan: the value at the sample epoch `b`, and the event found between `a` and `b`,
if the value crosses zero there. -/
def round (p : Probe σ S) (settings : Settings) (a : Epoch) (value : Float) (b : Epoch) :
    SearchM σ (Float × Option (Occurrence S)) := do
  let s ← p.sample b
  let next ← p.g s
  if Crosses value next then
    let (epoch, state) ← p.refine settings ⟨a, value, b⟩
    let found ← p.report epoch state (decide (value < next))
    return (next, some found)
  else return (next, none)

/-- Rounds at the epochs of a list, in order, after a sample `a` with the value `value`. -/
def scanAlong (p : Probe σ S) (settings : Settings) :
    List Epoch → Epoch → Float → SearchM σ (List (Occurrence S))
  | [], _, _ => return []
  | b :: rest, a, value => do
    match ← p.round settings a value b with
    | (next, none) => p.scanAlong settings rest b next
    | (next, some found) =>
      if found.action = .stop then return [found]
      else
        let later ← p.scanAlong settings rest b next
        return found :: later

/-- A scan is the walk along its sample epochs. -/
theorem scan_eq_scanAlong (p : Probe σ S) (settings : Settings) (finish a : Epoch)
    (value : Float) :
    p.scan settings finish a value =
      p.scanAlong settings (samplesAfter settings.maxCheckInterval finish a) a value := by
  induction a using sampling_induction settings.maxCheckInterval finish generalizing value with
  | next a h ih =>
    rw [scan, dif_pos h, samplesAfter_of_lt _ h]
    simp only [scanAlong, round, bind_assoc]
    -- both sides sample the epoch, ask for its value, and go on alike
    congr 1
    funext s
    congr 1
    funext next
    split
    · simp only [bind_assoc, pure_bind, ih]
    · simp only [pure_bind, ih]
  | done a h =>
    rw [scan, dif_neg h, samplesAfter_of_not_lt _ h]
    rfl

/-- A search is a first value, and the walk along the samples after it. -/
theorem search_eq (p : Probe σ S) (settings : Settings) (start finish : Epoch) (s : S) :
    p.search settings start finish s = (do
      let value ← p.g s
      p.scanAlong settings (samplesAfter settings.maxCheckInterval finish start) start value) := by
  simp only [search, scan_eq_scanAlong]

end TrajectoryEvents.Probe
