import TrajectoryEvents.Decimal.Numeral

/-!
# JSON values

A JSON value with its numbers as they are written, so that reading decides what a number means only
where it is needed. The escapes in a string literal can spell one half of a surrogate pair; such a
literal is well formed, but there is no text that it denotes.

A value is written in the compact form: no blanks, members in their order, and in strings only the
escapes that are needed.
-/

namespace TrajectoryEvents

/-- What a string literal denotes: a text, or nothing. -/
abbrev JsonText := Option String

/-- A JSON value. -/
inductive Json
  | null
  | bool (value : Bool)
  | number (numeral : Numeral)
  | string (text : JsonText)
  | array (items : List Json)
  | object (members : List (JsonText × Json))
deriving Inhabited

/-! ### Writing -/

namespace Json

/-- The characters of an escape by code unit. -/
def unitEscape (unit : Nat) : List Char :=
  let digit (k : Nat) := Nat.digitChar (unit >>> (4 * k) % 16)
  ['\\', 'u', digit 3, digit 2, digit 1, digit 0]

/-- The letter of the short escape for a code unit, where there is one and it is needed. -/
def escapeLetter? (unit : Nat) : Option Char :=
  match unit with
  | 8 => some 'b'
  | 9 => some 't'
  | 10 => some 'n'
  | 12 => some 'f'
  | 13 => some 'r'
  | 34 => some '"'
  | 92 => some '\\'
  | _ => none

/-- The characters that show one character in a string. -/
def escapeChar (c : Char) : List Char :=
  match escapeLetter? c.toNat with
  | some letter => ['\\', letter]
  | none => if c.toNat < 32 then unitEscape c.toNat else [c]

/-- The characters of a string literal. A literal without a text is one lone surrogate. -/
def stringChars : JsonText → List Char
  | some text => '"' :: text.toList.flatMap escapeChar ++ ['"']
  | none => '"' :: unitEscape 0xd800 ++ ['"']

mutual

/-- The characters of a value. -/
def chars : Json → List Char
  | .null => ['n', 'u', 'l', 'l']
  | .bool true => ['t', 'r', 'u', 'e']
  | .bool false => ['f', 'a', 'l', 's', 'e']
  | .number numeral => numeral.chars
  | .string text => stringChars text
  | .array [] => ['[', ']']
  | .array (item :: items) => '[' :: chars item ++ itemChars items
  | .object [] => ['{', '}']
  | .object ((name, value) :: members) =>
    '{' :: stringChars name ++ ':' :: chars value ++ memberChars members

/-- The characters of the remaining items of an array. -/
def itemChars : List Json → List Char
  | [] => [']']
  | item :: items => ',' :: chars item ++ itemChars items

/-- The characters of the remaining members of an object. -/
def memberChars : List (JsonText × Json) → List Char
  | [] => ['}']
  | (name, value) :: members => ',' :: stringChars name ++ ':' :: chars value ++ memberChars members

end

/-- A value as text. -/
def text (value : Json) : String := String.ofList value.chars

end Json

end TrajectoryEvents
