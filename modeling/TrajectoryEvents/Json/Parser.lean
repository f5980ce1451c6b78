import TrajectoryEvents.Json.Basic

/-!
# Reading JSON

A reader for strict JSON: no leading zeros, no signs but the minus, no dangling points or commas, no
control characters in strings. `Json.parse?` reads one value from the front of a text and returns
what is left of the text.
-/

namespace TrajectoryEvents

namespace Json

/-! ### Blanks and numbers -/

/-- The characters that may stand between the parts of a value. -/
def isBlank (c : Char) : Bool := c = ' ' || c = '\n' || c = '\t' || c = '\r'

/-- A text without the blanks at its front. -/
def skipBlanks (cs : List Char) : List Char := cs.dropWhile isBlank

/-- The digits at the front of a text, and what is left. -/
def takeDigits : List Char → List Digit × List Char
  | [] => ([], [])
  | c :: cs =>
    match Digit.ofChar? c with
    | some d =>
      let (ds, rest) := takeDigits cs
      (d :: ds, rest)
    | none => ([], c :: cs)

/-- At least one digit at the front of a text, and what is left. -/
def someDigits? (cs : List Char) : Option (List Digit × List Char) :=
  match takeDigits cs with
  | ([], _) => none
  | digits => some digits

/-- The digits before the point: a zero stands there alone. -/
def whole? (cs : List Char) : Option (List Digit × List Char) :=
  match someDigits? cs with
  | some (0 :: _ :: _, _) => none
  | digits => digits

/-- The digits after the point, if there is one. -/
def fraction? : List Char → Option (List Digit × List Char)
  | '.' :: cs => someDigits? cs
  | cs => some ([], cs)

/-- The exponent after its mark. -/
def exponentTail? : List Char → Option (WrittenExponent × List Char)
  | '+' :: cs => (someDigits? cs).map fun (ds, rest) => (⟨.plus, ds⟩, rest)
  | '-' :: cs => (someDigits? cs).map fun (ds, rest) => (⟨.minus, ds⟩, rest)
  | cs => (someDigits? cs).map fun (ds, rest) => (⟨.bare, ds⟩, rest)

/-- The exponent, if there is one. -/
def exponent? : List Char → Option (Option WrittenExponent × List Char)
  | 'e' :: cs => (exponentTail? cs).map fun (e, rest) => (some e, rest)
  | 'E' :: cs => (exponentTail? cs).map fun (e, rest) => (some e, rest)
  | cs => some (none, cs)

/-- The number at the front of a text, and what is left. -/
def unsigned? (negative : Bool) (cs : List Char) : Option (Numeral × List Char) := do
  let (whole, cs) ← whole? cs
  let (fraction, cs) ← fraction? cs
  let (exponent, cs) ← exponent? cs
  return ({ negative, whole, fraction, exponent }, cs)

/-- The number at the front of a text, possibly with a minus sign, and what is left. -/
def number? : List Char → Option (Numeral × List Char)
  | '-' :: cs => unsigned? true cs
  | cs => unsigned? false cs

/-! ### Strings -/

/-- The value of a hexadecimal digit. -/
def hexDigit? (c : Char) : Option Nat :=
  if 48 ≤ c.toNat ∧ c.toNat < 58 then some (c.toNat - 48)
  else if 97 ≤ c.toNat ∧ c.toNat < 103 then some (c.toNat - 87)
  else if 65 ≤ c.toNat ∧ c.toNat < 71 then some (c.toNat - 55)
  else none

/-- The code unit that four hexadecimal digits denote. -/
def hexUnit? (a b c d : Char) : Option Nat := do
  return (((← hexDigit? a) * 16 + (← hexDigit? b)) * 16 + (← hexDigit? c)) * 16 + (← hexDigit? d)

/-- The character that an escape by one letter denotes. -/
def letterEscape? (c : Char) : Option Nat :=
  match c with
  | '"' => some 34
  | '\\' => some 92
  | '/' => some 47
  | 'b' => some 8
  | 'f' => some 12
  | 'n' => some 10
  | 'r' => some 13
  | 't' => some 9
  | _ => none

/-- The code units of a string up to its closing quote, and what is left. Characters that are not
escaped stand for themselves. -/
def stringUnits? : List Char → Option (List Nat × List Char)
  | [] => none
  | '"' :: cs => some ([], cs)
  | '\\' :: 'u' :: a :: b :: c :: d :: cs => do
    let unit ← hexUnit? a b c d
    let (units, rest) ← stringUnits? cs
    return (unit :: units, rest)
  | '\\' :: c :: cs => do
    let unit ← letterEscape? c
    let (units, rest) ← stringUnits? cs
    return (unit :: units, rest)
  | c :: cs =>
    if c.toNat < 32 then none
    else do
      let (units, rest) ← stringUnits? cs
      return (c.toNat :: units, rest)

/-- Whether a code unit is the first half of a surrogate pair. -/
def isHighSurrogate (unit : Nat) : Bool := 0xd800 ≤ unit && unit < 0xdc00

/-- Whether a code unit is the second half of a surrogate pair. -/
def isLowSurrogate (unit : Nat) : Bool := 0xdc00 ≤ unit && unit < 0xe000

/-- The characters that code units denote, if every surrogate has its partner. -/
def decodeUnits? : List Nat → Option (List Char)
  | [] => some []
  | unit :: units =>
    if isHighSurrogate unit then
      match units with
      | [] => none
      | low :: units =>
        if isLowSurrogate low then
          (decodeUnits? units).map
            (Char.ofNat (0x10000 + (unit - 0xd800) * 0x400 + (low - 0xdc00)) :: ·)
        else none
    else if isLowSurrogate unit then none
    else (decodeUnits? units).map (Char.ofNat unit :: ·)

/-- The string after its opening quote, and what is left. -/
def string? (cs : List Char) : Option (JsonText × List Char) := do
  let (units, rest) ← stringUnits? cs
  return ((decodeUnits? units).map String.ofList, rest)

/-! ### Values -/

mutual

/-- The value at the front of a text, and what is left, found in at most `n` steps. -/
def value? (n : Nat) (cs : List Char) : Option (Json × List Char) :=
  match n with
  | 0 => none
  | n + 1 =>
    -- The first character tells what kind of value follows.
    match skipBlanks cs with
    | 'n' :: 'u' :: 'l' :: 'l' :: rest => some (.null, rest)
    | 't' :: 'r' :: 'u' :: 'e' :: rest => some (.bool true, rest)
    | 'f' :: 'a' :: 'l' :: 's' :: 'e' :: rest => some (.bool false, rest)
    | '"' :: rest => (string? rest).map fun (text, rest) => (.string text, rest)
    | '[' :: rest =>
      match skipBlanks rest with
      | ']' :: rest => some (.array [], rest)
      | rest => (items? n rest).map fun (items, rest) => (.array items, rest)
    | '{' :: rest =>
      match skipBlanks rest with
      | '}' :: rest => some (.object [], rest)
      | rest => (members? n rest).map fun (members, rest) => (.object members, rest)
    | rest => (number? rest).map fun (numeral, rest) => (.number numeral, rest)

/-- The items of an array up to its end, and what is left. -/
def items? (n : Nat) (cs : List Char) : Option (List Json × List Char) :=
  match n with
  | 0 => none
  | n + 1 => do
    let (item, rest) ← value? n cs
    match skipBlanks rest with
    | ']' :: rest => return ([item], rest)
    | ',' :: rest => do
      let (items, rest) ← items? n rest
      return (item :: items, rest)
    | _ => none

/-- The members of an object up to its end, and what is left. -/
def members? (n : Nat) (cs : List Char) : Option (List (JsonText × Json) × List Char) :=
  match n with
  | 0 => none
  | n + 1 => do
    match skipBlanks cs with
    | '"' :: rest => do
      let (name, rest) ← string? rest
      match skipBlanks rest with
      | ':' :: rest => do
        let (value, rest) ← value? n rest
        match skipBlanks rest with
        | '}' :: rest => return ([(name, value)], rest)
        | ',' :: rest => do
          let (members, rest) ← members? n rest
          return ((name, value) :: members, rest)
        | _ => none
      | _ => none
    | _ => none

end

/-- The value at the front of a text, and what is left. A value takes no more steps than twice the
characters it has. -/
def parse? (cs : List Char) : Option (Json × List Char) := value? (2 * cs.length + 2) cs

end Json

end TrajectoryEvents
