import TrajectoryEvents.Decimal.Style
import TrajectoryEvents.Json.Parser
import TrajectoryEvents.Error

/-!
# Values with a JSON form

`JsonForm` says how values of a type are written as JSON and which JSON values they are read from.
`JsonForm.write` and `JsonForm.read` go all the way to text. A text is checked for anything after
the value only when the value itself has been accepted.

The forms of numbers, flags and lists are given here, and the two ways in which a record is read:
from an object, in any order and with unknown members ignored, or from an array of its fields.
-/

namespace TrajectoryEvents

/-- Why a text cannot be read. -/
inductive ReadError
  /-- The text is not JSON, or not of the expected form. -/
  | malformed
  /-- The value was refused. -/
  | refused (error : EventError)
deriving DecidableEq

/-- Types whose values have a JSON form. -/
class JsonForm (α : Type) where
  encode : α → Json
  decode : Json → Except ReadError α

namespace JsonForm

variable {α : Type} [JsonForm α]

/-- A value as JSON text. -/
def write (a : α) : String := (encode a).text

/-- The value that a JSON text denotes. -/
def read (text : String) : Except ReadError α :=
  match Json.parse? text.toList with
  | none => .error .malformed
  | some (value, rest) => do
    let a ← decode value
    if (Json.skipBlanks rest).isEmpty then return a else throw .malformed

end JsonForm

/-- JSON texts write numbers with a point, and with a signed exponent outside `10 ^ -5` to
`10 ^ 16`. -/
def NumberStyle.json : NumberStyle where
  isPositional exponent := -5 ≤ exponent && exponent < 16
  keepsPoint := true
  positiveSign := .plus
  tie := .toEven

namespace Json

/-- Accept a value that is present. -/
def expect {α : Type} : Option α → Except ReadError α
  | some a => .ok a
  | none => .error .malformed

/-! ### Single values -/

/-- Numbers are written with the shortest digits; NaN and the infinities have no number. -/
instance : JsonForm Float where
  encode x := if x.isFinite then .number (NumberStyle.json.numeral x) else .null
  decode
    | .number numeral => expect numeral.toFloat?
    | _ => .error .malformed

/-- Counts are read from integer literals only. -/
instance : JsonForm UInt64 where
  encode n := .number (.ofNat n.toNat)
  decode
    | .number numeral => do
      let n ← expect numeral.toNat?
      if n < UInt64.size then return UInt64.ofNat n else throw .malformed
    | _ => .error .malformed

instance : JsonForm Bool where
  encode b := .bool b
  decode
    | .bool b => .ok b
    | _ => .error .malformed

instance {α : Type} [JsonForm α] : JsonForm (List α) where
  encode as := .array (as.map JsonForm.encode)
  decode
    | .array items => items.mapM JsonForm.decode
    | _ => .error .malformed

/-! ### Records -/

/-- The member of an object with a given name, if there is one; a second one is refused. -/
def member? (members : List (JsonText × Json)) (name : String) : Except ReadError (Option Json) :=
  match members.filter (·.1 == some name) with
  | [] => .ok none
  | [(_, value)] => .ok (some value)
  | _ => .error .malformed

/-- The fields of a record, in order, each of them possibly missing. -/
def fields (names : List String) : Json → Except ReadError (List (Option Json))
  | .object members =>
    if members.any (·.1.isNone) then .error .malformed else names.mapM (member? members)
  | .array items =>
    if names.length < items.length then .error .malformed
    else .ok ((List.range names.length).map fun k => items[k]?)
  | _ => .error .malformed

/-- A field that has to be present. -/
def required {α : Type} [JsonForm α] : Option Json → Except ReadError α
  | some value => JsonForm.decode value
  | none => .error .malformed

/-- A field with a value for when it is missing. -/
def withDefault {α : Type} [JsonForm α] (default : α) : Option Json → Except ReadError α
  | some value => JsonForm.decode value
  | none => .ok default

/-! ### Choices -/

/-- The name of a choice: a string, or the only member of an object, which is null. -/
def choice? : Json → Option String
  | .string text => text
  | .object [(name, .null)] => name
  | _ => none

/-- The one of several values whose name is chosen. -/
def choose {α : Type} (name : α → String) (options : List α) (value : Json) :
    Except ReadError α :=
  expect ((choice? value).bind fun chosen => options.find? (name · == chosen))

end Json

end TrajectoryEvents
