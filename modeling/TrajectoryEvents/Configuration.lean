import TrajectoryEvents.Handler
import TrajectoryEvents.Json.Form

/-!
# Configuration texts

The JSON forms of the values that are stored with a configuration or exchanged between programs.

* Settings are read with the standard value for every missing parameter, and then validated.
* Actions and reducers are read from their exact names.
* An epoch is its seconds, a recorded event has an epoch and a direction, and a state has an epoch
  and a column of components: their list, their number, and a mark for the single column.
-/

namespace TrajectoryEvents

open Json

instance : JsonForm Epoch where
  encode t := JsonForm.encode t.seconds
  decode value := Epoch.mk <$> JsonForm.decode value

instance : JsonForm Action where
  encode a := .string (some a.name)
  decode := choose Action.name [.stop, .resetState, .resetDerivatives, .proceed]

instance : JsonForm Reducer where
  encode r := .string (some r.name)
  decode := choose Reducer.name [.min, .max]

instance : JsonForm RecordedEvent where
  encode e :=
    .object [(some "epoch", JsonForm.encode e.epoch),
      (some "increasing", JsonForm.encode e.increasing)]
  decode value := do
    match ← fields ["epoch", "increasing"] value with
    | [epoch, increasing] =>
      return { epoch := ← required epoch, increasing := ← required increasing }
    | _ => throw .malformed

namespace Settings

/-- The settings in a JSON value, with the standard value for every missing parameter, before
validation. -/
def decodeRaw (value : Json) : Except ReadError Settings := do
  let names := [Setting.maxCheckInterval.name, Setting.threshold.name,
    Setting.maxIterationCount.name]
  match ← fields names value with
  | [maxCheckInterval, threshold, maxIterationCount] =>
    return {
      maxCheckInterval := ← withDefault standard.maxCheckInterval maxCheckInterval
      threshold := ← withDefault standard.threshold threshold
      maxIterationCount := ← withDefault standard.maxIterationCount maxIterationCount }
  | _ => throw .malformed

instance : JsonForm Settings where
  encode s :=
    .object [(some Setting.maxCheckInterval.name, JsonForm.encode s.maxCheckInterval),
      (some Setting.threshold.name, JsonForm.encode s.threshold),
      (some Setting.maxIterationCount.name, JsonForm.encode s.maxIterationCount)]
  decode value := do
    let s ← decodeRaw value
    s.validate.mapError .refused

end Settings

namespace TrajectoryState

/-- A column of components: their list, their number, and a mark for the single column. -/
def encodeColumn (components : List Float) : Json :=
  .array [JsonForm.encode components, .number (.ofNat components.length), .null]

/-- The components in a column whose number agrees with its list. -/
def decodeColumn : Json → Except ReadError (List Float)
  | .array [components, .number count, .null] => do
    let components : List Float ← JsonForm.decode components
    if count.toNat? = some components.length then return components else throw .malformed
  | _ => .error .malformed

instance : JsonForm TrajectoryState where
  encode s :=
    .object [(some "epoch", JsonForm.encode s.epoch), (some "y", encodeColumn s.components)]
  decode value := do
    match ← fields ["epoch", "y"] value with
    | [epoch, some y] => return { epoch := ← required epoch, components := ← decodeColumn y }
    | _ => throw .malformed

end TrajectoryState

end TrajectoryEvents
