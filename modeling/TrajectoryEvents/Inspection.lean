/-!
# Inspection texts

An inspection shows a value as a tree of records, lists and plain texts. It is rendered on one line,
or spread over several, one field or item a line and each level indented by four blanks.

A text that is shown as a value stands between double quotes. Quotes and backslashes are escaped,
and so are characters without a visible form, the common ones by a letter and the others by their
code point. Without a visible form are controls, format characters, separators other than the space,
and characters for private use.
-/

namespace TrajectoryEvents

/-! ### Quoted text -/

/-- The code points of the characters without a visible form, as inclusive ranges in increasing
order. -/
def invisibleRanges : List (Nat × Nat) :=
  [(0x0, 0x1f), (0x7f, 0xa0), (0xad, 0xad), (0x600, 0x605), (0x61c, 0x61c), (0x6dd, 0x6dd),
   (0x70f, 0x70f), (0x890, 0x891), (0x8e2, 0x8e2), (0x1680, 0x1680), (0x180e, 0x180e),
   (0x2000, 0x200f), (0x2028, 0x202f), (0x205f, 0x2064), (0x2066, 0x206f), (0x3000, 0x3000),
   (0xe000, 0xf8ff), (0xfeff, 0xfeff), (0xfff9, 0xfffb), (0x110bd, 0x110bd), (0x110cd, 0x110cd),
   (0x13430, 0x13438), (0x1bca0, 0x1bca3), (0x1d173, 0x1d17a), (0xe0001, 0xe0001),
   (0xe0020, 0xe007f), (0xf0000, 0xffffd), (0x100000, 0x10fffd)]

/-- Whether a character has no visible form. -/
def isInvisible (c : Char) : Bool :=
  invisibleRanges.any fun (first, last) => first ≤ c.toNat && c.toNat ≤ last

/-- A natural number in hexadecimal, in lower case and without leading zeros. -/
def hexadecimal (n : Nat) : String := String.ofList (Nat.toDigits 16 n)

/-- A character as it stands between quotes. -/
def escaped (c : Char) : String :=
  if c = '"' then "\\\""
  else if c = '\\' then "\\\\"
  else if c = '\t' then "\\t"
  else if c = '\r' then "\\r"
  else if c = '\n' then "\\n"
  else if c.toNat = 0 then "\\0"
  else if isInvisible c then "\\u\x7b" ++ hexadecimal c.toNat ++ "\x7d"
  else c.toString

/-- A text between quotes. -/
def quoted (s : String) : String :=
  "\"" ++ s.toList.foldl (fun shown c => shown ++ escaped c) "" ++ "\""

/-! ### Inspections -/

/-- A value to be shown. -/
inductive Inspection
  /-- A text that is shown as it is. -/
  | atom (text : String)
  /-- A record with named fields. A partial record has further fields that are not shown. -/
  | record (name : String) (fields : List (String × Inspection)) (isPartial : Bool)
  /-- A list of values. -/
  | list (items : List Inspection)

namespace Inspection

mutual

/-- A value on one line. -/
def line : Inspection → String
  | .atom text => text
  | .record name fields isPartial =>
    let shown := lineFields fields ++ (if isPartial then [".."] else [])
    name ++ " \x7b " ++ String.intercalate ", " shown ++ " \x7d"
  | .list items => "[" ++ String.intercalate ", " (lineItems items) ++ "]"

/-- The fields of a record on one line. -/
def lineFields : List (String × Inspection) → List String
  | [] => []
  | (name, value) :: rest => (name ++ ": " ++ line value) :: lineFields rest

/-- The items of a list on one line. -/
def lineItems : List Inspection → List String
  | [] => []
  | item :: rest => line item :: lineItems rest

end

mutual

/-- A value over several lines; `margin` stands in front of all lines but the first. -/
def spread (margin : String) : Inspection → String
  | .atom text => text
  | .record name fields isPartial =>
    name ++ " \x7b\n" ++ spreadFields (margin ++ "    ") fields ++
      (if isPartial then margin ++ "    ..\n" else "") ++ margin ++ "\x7d"
  | .list [] => "[]"
  | .list items => "[\n" ++ spreadItems (margin ++ "    ") items ++ margin ++ "]"

/-- The fields of a record, one a line. -/
def spreadFields (margin : String) : List (String × Inspection) → String
  | [] => ""
  | (name, value) :: rest =>
    margin ++ name ++ ": " ++ spread margin value ++ ",\n" ++ spreadFields margin rest

/-- The items of a list, one a line. -/
def spreadItems (margin : String) : List Inspection → String
  | [] => ""
  | item :: rest => margin ++ spread margin item ++ ",\n" ++ spreadItems margin rest

end

/-- A value as text, spread over several lines if so wished. -/
def render (value : Inspection) (spreadOut : Bool) : String :=
  if spreadOut then value.spread "" else value.line

end Inspection

end TrajectoryEvents
