import Mathlib.Data.Fintype.Basic
import Mathlib.Data.List.TakeWhile
import Mathlib.Tactic.FinCases
import TrajectoryEvents.Json.Form
import TrajectoryEvents.Proofs.Decimal.Style

/-!
# What is written is read back

The compact text of a JSON value is read as that value, whatever stands behind it. A number ends
where the text goes on with something that does not belong to a number; in the compact form that is
always so, since a comma, a bracket or the end of the text follows. A string is read character by
character, each from its own escape.

Reading a value takes steps, of which the reader has a supply that depends on the length of the
text. Two steps for each character are enough: an item of an array takes one more than the value,
and the bracket or comma before it pays for that.

## Main definitions

* `Json.EndsNumber`: a text that does not continue a number before it.
* `Json.WellFormed`: a value whose numbers are well-formed numerals.
* `Json.Denotes`: a text is a JSON value, apart from blanks around it.

## Main results

* `Json.number?_append`, `Json.string?_append`: numbers and strings are read back.
* `Json.WellFormed.isRead`: so are values.
* `Json.denotes_text`: the compact text of a value denotes that value.
* `JsonForm.read_of_denotes`: a text is read as the value that it denotes is decoded.
-/

namespace TrajectoryEvents

namespace Json

/-! ### Numbers -/

section Numbers

variable {cs rest : List Char} {ds : List Digit}

/-- A text that does not go on with a digit. -/
def NoDigit (cs : List Char) : Prop := ∀ c ∈ cs.head?, Digit.ofChar? c = none

/-- A text that does not go on with anything that would belong to a number before it. -/
def EndsNumber (cs : List Char) : Prop :=
  ∀ c ∈ cs.head?, Digit.ofChar? c = none ∧ c ≠ '.' ∧ c ≠ 'e' ∧ c ≠ 'E'

theorem EndsNumber.noDigit (h : EndsNumber cs) : NoDigit cs := fun c hc => (h c hc).1

/-- All digits at the front of a text are taken. -/
theorem takeDigits_append (h : NoDigit rest) :
    takeDigits (ds.map Digit.char ++ rest) = (ds, rest) := by
  induction ds with
  | nil =>
    cases rest with
    | nil => rfl
    | cons c cs => simp [takeDigits, h c rfl]
  | cons d ds ih => simp [takeDigits, Digit.ofChar?_char, ih]

theorem someDigits?_append (hne : ds ≠ []) (h : NoDigit rest) :
    someDigits? (ds.map Digit.char ++ rest) = some (ds, rest) := by
  obtain ⟨d, ds, rfl⟩ := List.exists_cons_of_ne_nil hne
  simp only [someDigits?, takeDigits_append h]

theorem whole?_append (hne : ds ≠ []) (hlead : ∀ ds', ds = 0 :: ds' → ds' = []) (h : NoDigit rest) :
    whole? (ds.map Digit.char ++ rest) = some (ds, rest) := by
  rw [whole?, someDigits?_append hne h]
  split
  next heq =>
    obtain ⟨rfl, -⟩ := Prod.mk.inj (Option.some.inj heq)
    exact absurd (hlead _ rfl) (List.cons_ne_nil _ _)
  next => rfl

/-- The characters of the digits after the point, if there are any. -/
private def fractionChars (ds : List Digit) : List Char :=
  if ds.isEmpty then [] else '.' :: ds.map Digit.char

theorem fraction?_append (h : NoDigit rest) (hpoint : ds = [] → ∀ c ∈ rest.head?, c ≠ '.') :
    fraction? (fractionChars ds ++ rest) = some (ds, rest) := by
  cases ds with
  | nil =>
    cases rest with
    | nil => rfl
    | cons c cs =>
      have hc : c ≠ '.' := hpoint rfl c rfl
      simp [fractionChars, fraction?, hc]
  | cons d ds =>
    simpa [fractionChars, fraction?] using someDigits?_append (List.cons_ne_nil d ds) h

/-- A point does not continue the digits before it. -/
theorem noDigit_fractionChars_append (h : NoDigit rest) : NoDigit (fractionChars ds ++ rest) := by
  cases ds with
  | nil => exact h
  | cons d ds =>
    intro c hc
    obtain rfl := Option.some.inj hc
    decide

/-- The characters of a sign in front of an exponent. -/
private def signChars : ExponentSign → List Char
  | .bare => []
  | .plus => ['+']
  | .minus => ['-']

/-- No digit is taken for a sign. -/
theorem char_ne_sign (d : Digit) : d.char ≠ '-' ∧ d.char ≠ '+' := by
  revert d
  decide

/-- No digit is taken for a blank or for the end of an array. -/
theorem char_begins (d : Digit) : isBlank d.char = false ∧ d.char ≠ ']' := by
  revert d
  decide

theorem exponentTail?_append {s : ExponentSign} (hne : ds ≠ []) (h : NoDigit rest) :
    exponentTail? (signChars s ++ (ds.map Digit.char ++ rest)) = some (⟨s, ds⟩, rest) := by
  have hds := someDigits?_append hne h
  cases s with
  | plus | minus => simp [signChars, exponentTail?, hds]
  | bare =>
    obtain ⟨d, ds, rfl⟩ := List.exists_cons_of_ne_nil hne
    obtain ⟨hminus, hplus⟩ := char_ne_sign d
    simp only [List.map_cons, List.cons_append] at hds
    simp [signChars, exponentTail?, hminus, hplus, hds]

/-- The characters of an exponent, if there is one. -/
private def exponentChars : Option WrittenExponent → List Char
  | none => []
  | some e => e.chars

theorem exponent?_append {e : Option WrittenExponent} (he : ∀ x, e = some x → x.digits ≠ [])
    (h : EndsNumber rest) : exponent? (exponentChars e ++ rest) = some (e, rest) := by
  cases e with
  | none =>
    cases rest with
    | nil => rfl
    | cons c cs =>
      obtain ⟨-, -, he, hE⟩ := h c rfl
      simp [exponentChars, exponent?, he, hE]
  | some e =>
    have hchars : e.chars ++ rest =
        'e' :: (signChars e.sign ++ (e.digits.map Digit.char ++ rest)) := by
      cases hs : e.sign <;> simp [WrittenExponent.chars, signChars, hs]
    have htail := exponentTail?_append (s := e.sign) (he e rfl) h.noDigit
    simp [exponentChars, hchars, exponent?, htail]

/-- The mark of an exponent does not continue the digits before it. -/
theorem noDigit_exponentChars_append (e : Option WrittenExponent) (h : EndsNumber rest) :
    ∀ c ∈ (exponentChars e ++ rest).head?, Digit.ofChar? c = none ∧ c ≠ '.' := by
  intro c hc
  cases e with
  | none => exact ⟨(h c hc).1, (h c hc).2.1⟩
  | some e =>
    obtain rfl := Option.some.inj hc
    decide

/-- A numeral is read back, if the text does not go on with something that belongs to it. -/
theorem number?_append {n : Numeral} (hn : n.WellFormed) (h : EndsNumber rest) :
    number? (n.chars ++ rest) = some (n, rest) := by
  obtain ⟨negative, whole, fraction, exponent⟩ := n
  obtain ⟨hwhole, hlead, hexp⟩ := hn
  dsimp only at hwhole hlead hexp
  have hfollow := noDigit_exponentChars_append exponent h
  have hnoDigit : NoDigit (exponentChars exponent ++ rest) := fun c hc => (hfollow c hc).1
  -- the three parts one after another
  have hunsigned : unsigned? negative (whole.map Digit.char ++ (fractionChars fraction ++
      (exponentChars exponent ++ rest))) = some (⟨negative, whole, fraction, exponent⟩, rest) := by
    simp only [unsigned?, whole?_append hwhole hlead (noDigit_fractionChars_append hnoDigit),
      fraction?_append hnoDigit (fun _ c hc => (hfollow c hc).2), exponent?_append hexp h,
      Option.bind_eq_bind, Option.bind_some, Option.pure_def]
  have hchars : (⟨negative, whole, fraction, exponent⟩ : Numeral).chars ++ rest =
      (if negative then ['-'] else []) ++ (whole.map Digit.char ++ (fractionChars fraction ++
        (exponentChars exponent ++ rest))) := by
    unfold Numeral.chars fractionChars exponentChars
    cases exponent <;> simp
  rw [hchars]
  cases negative with
  | true => simpa [number?] using hunsigned
  | false =>
    -- without a sign, the first digit must not be mistaken for one
    obtain ⟨d, ds, rfl⟩ := List.exists_cons_of_ne_nil hwhole
    obtain ⟨hminus, -⟩ := char_ne_sign d
    simp only [List.map_cons, List.cons_append] at hunsigned
    simp [number?, hminus, hunsigned]

end Numbers

/-! ### Strings -/

section Strings

variable {rest : List Char}

theorem hexDigit?_digitChar {k : ℕ} (hk : k < 16) : hexDigit? (Nat.digitChar k) = some k := by
  revert k
  decide

/-- An escape by code unit is read back. -/
theorem stringUnits?_unitEscape {unit : ℕ} (h : unit < 0x10000) (cs : List Char) :
    stringUnits? (unitEscape unit ++ cs) = (stringUnits? cs).map fun p => (unit :: p.1, p.2) := by
  have hdigit (k : ℕ) :
      hexDigit? (Nat.digitChar (unit >>> (4 * k) % 16)) = some (unit >>> (4 * k) % 16) :=
    hexDigit?_digitChar (Nat.mod_lt _ (by decide))
  have hunit : ((unit >>> (4 * 3) % 16 * 16 + unit >>> (4 * 2) % 16) * 16 +
      unit >>> (4 * 1) % 16) * 16 + unit >>> (4 * 0) % 16 = unit := by
    simp only [Nat.shiftRight_eq_div_pow]
    omega
  simp only [unitEscape, List.cons_append, List.nil_append, stringUnits?, hexUnit?, hdigit,
    Option.bind_eq_bind, Option.bind_some, Option.pure_def, hunit]
  cases stringUnits? cs <;> rfl

/-- The letters of short escapes are not the mark of an escape by code unit, and are read back. -/
theorem letterEscape?_of_escapeLetter? {unit : ℕ} {letter : Char}
    (h : escapeLetter? unit = some letter) : letter ≠ 'u' ∧ letterEscape? letter = some unit := by
  unfold escapeLetter? at h
  split at h <;> cases h <;> exact ⟨by decide, rfl⟩

/-- The characters of a string are read back one by one. -/
theorem stringUnits?_escapeChar (c : Char) (cs : List Char) :
    stringUnits? (escapeChar c ++ cs) = (stringUnits? cs).map fun p => (c.toNat :: p.1, p.2) := by
  unfold escapeChar
  split
  -- a short escape
  next letter h =>
    obtain ⟨hu, hletter⟩ := letterEscape?_of_escapeLetter? h
    rw [List.cons_append, List.cons_append, List.nil_append, stringUnits?, hletter]
    · cases stringUnits? cs <;> rfl
    · intro a b c d cs h
      exact absurd h hu
  next h =>
    split
    -- a control character without a short escape is written by its code unit
    next hc => exact stringUnits?_unitEscape (by omega) cs
    -- all others stand for themselves; the quote and the backslash are not among them
    next hc =>
      have hquote : c ≠ '"' := by
        rintro rfl
        exact absurd h (by decide)
      have hslash : c ≠ '\\' := by
        rintro rfl
        exact absurd h (by decide)
      rw [List.cons_append, List.nil_append, stringUnits?, if_neg hc]
      · cases stringUnits? cs <;> rfl
      · exact hquote
      · intro _ _ _ _ _ h
        exact absurd h hslash
      · intro _ _ h
        exact absurd h hslash

theorem stringUnits?_flatMap_escapeChar (cs : List Char) :
    stringUnits? (cs.flatMap escapeChar ++ '"' :: rest) = some (cs.map Char.toNat, rest) := by
  induction cs with
  | nil => rfl
  | cons c cs ih =>
    rw [List.flatMap_cons, List.append_assoc, stringUnits?_escapeChar, ih]
    rfl

/-- No character is half of a surrogate pair. -/
theorem decodeUnits?_map_toNat (cs : List Char) : decodeUnits? (cs.map Char.toNat) = some cs := by
  induction cs with
  | nil => rfl
  | cons c cs ih =>
    have hvalid : c.toNat < 0xd800 ∨ 0xdfff < c.toNat := by
      rcases c.valid with h | h
      · exact .inl h
      · exact .inr h.1
    have hhigh : isHighSurrogate c.toNat = false := by
      simp only [isHighSurrogate, Bool.and_eq_false_iff, decide_eq_false_iff_not]
      omega
    have hlow : isLowSurrogate c.toNat = false := by
      simp only [isLowSurrogate, Bool.and_eq_false_iff, decide_eq_false_iff_not]
      omega
    rw [List.map_cons, decodeUnits?.eq_def]
    simp [hhigh, hlow, ih, Char.ofNat_toNat]

/-- A string literal is read back, also one without a text. -/
theorem string?_append (t : JsonText) :
    ∃ body, stringChars t = '"' :: body ∧ ∀ rest, string? (body ++ rest) = some (t, rest) := by
  cases t with
  | none =>
    -- the lone surrogate that such a literal is written with has no text
    refine ⟨unitEscape 0xd800 ++ ['"'], rfl, fun rest => ?_⟩
    rw [List.append_assoc, string?, stringUnits?_unitEscape (by decide)]
    rfl
  | some t =>
    refine ⟨t.toList.flatMap escapeChar ++ ['"'], rfl, fun rest => ?_⟩
    rw [List.append_assoc, string?, List.singleton_append, stringUnits?_flatMap_escapeChar]
    simp [decodeUnits?_map_toNat]

end Strings

/-! ### Values -/

section Values

variable {c : Char} {cs rest : List Char} {n : ℕ}

/-- A value whose numbers are well-formed numerals. -/
inductive WellFormed : Json → Prop
  | null : WellFormed .null
  | bool (b : Bool) : WellFormed (.bool b)
  | number {numeral : Numeral} (h : numeral.WellFormed) : WellFormed (.number numeral)
  | string (text : JsonText) : WellFormed (.string text)
  | array {items : List Json} (h : ∀ item ∈ items, WellFormed item) : WellFormed (.array items)
  | object {members : List (JsonText × Json)} (h : ∀ member ∈ members, WellFormed member.2) :
    WellFormed (.object members)

/-- The value is read from its characters, given two steps for each of them, from any text that goes
on with something that does not continue a number. -/
def IsRead (value : Json) : Prop :=
  ∀ n rest, 2 * value.chars.length ≤ n → EndsNumber rest →
    value? n (value.chars ++ rest) = some (value, rest)

/-- A number begins with a digit or a minus sign. -/
theorem head_numeral {numeral : Numeral} (h : numeral.WellFormed) :
    ∃ c cs, numeral.chars = c :: cs ∧ (c = '-' ∨ ∃ d : Digit, c = d.char) := by
  obtain ⟨negative, whole, fraction, exponent⟩ := numeral
  obtain ⟨d, ds, rfl⟩ := List.exists_cons_of_ne_nil h.whole_ne_nil
  cases negative with
  | true => exact ⟨_, _, rfl, .inl rfl⟩
  | false => exact ⟨_, _, rfl, .inr ⟨d, rfl⟩⟩

/-- No value begins with a blank or with the end of an array. -/
theorem head_chars {value : Json} (h : value.WellFormed) :
    ∃ c cs, value.chars = c :: cs ∧ isBlank c = false ∧ c ≠ ']' := by
  cases h with
  | null => exact ⟨_, _, rfl, by decide⟩
  | bool b => cases b <;> exact ⟨_, _, rfl, by decide⟩
  | number h =>
    obtain ⟨c, cs, hchars, rfl | ⟨d, rfl⟩⟩ := head_numeral h
    · exact ⟨_, _, hchars, by decide⟩
    · exact ⟨_, _, hchars, char_begins d⟩
  | string text =>
    obtain ⟨body, hchars, -⟩ := string?_append text
    exact ⟨_, _, hchars, by decide⟩
  | @array items h => cases items <;> exact ⟨_, _, rfl, by decide⟩
  | @object members h => cases members <;> exact ⟨_, _, rfl, by decide⟩

theorem value?_number (hc : c = '-' ∨ ∃ d : Digit, c = d.char) :
    value? (n + 1) (c :: cs) = (number? (c :: cs)).map fun p => (.number p.1, p.2) := by
  rcases hc with rfl | ⟨d, rfl⟩
  · rfl
  · fin_cases d <;> rfl

theorem value?_string : value? (n + 1) ('"' :: cs) =
    (string? cs).map fun p => (.string p.1, p.2) := rfl

theorem value?_array (hblank : isBlank c = false) (hend : c ≠ ']') :
    value? (n + 1) ('[' :: c :: cs) = (items? n (c :: cs)).map fun p => (.array p.1, p.2) := by
  have hskip : skipBlanks (c :: cs) = c :: cs := by simp [skipBlanks, hblank]
  have hbracket : skipBlanks ('[' :: c :: cs) = '[' :: c :: cs := rfl
  simp [value?, hbracket, hskip, hend]

theorem value?_object : value? (n + 1) ('{' :: '"' :: cs) =
    (members? n ('"' :: cs)).map fun p => (.object p.1, p.2) := rfl

/-- What stands behind an item of an array does not continue a number. -/
theorem endsNumber_itemChars (items : List Json) : EndsNumber (itemChars items ++ rest) := by
  intro c hc
  cases items <;> (obtain rfl := Option.some.inj hc; decide)

theorem endsNumber_memberChars (members : List (JsonText × Json)) :
    EndsNumber (memberChars members ++ rest) := by
  intro c hc
  cases members with
  | nil =>
    obtain rfl := Option.some.inj hc
    decide
  | cons member members =>
    obtain rfl := Option.some.inj hc
    decide

/-- The items of an array are read one after another. -/
theorem items?_append {item : Json} {items : List Json} (h : ∀ v ∈ item :: items, IsRead v)
    (hn : 2 * (item.chars ++ itemChars items).length ≤ n) (rest : List Char) :
    items? n (item.chars ++ (itemChars items ++ rest)) = some (item :: items, rest) := by
  induction items generalizing item n with
  | nil =>
    -- the closing bracket pays for the step from the array to the item
    rw [itemChars, List.length_append, List.length_singleton] at hn
    obtain ⟨n, rfl⟩ := Nat.exists_eq_add_of_lt (show 0 < n by omega)
    have hitem := h item List.mem_cons_self n (itemChars [] ++ rest) (by omega)
      (endsNumber_itemChars [])
    rw [zero_add, items?, hitem]
    rfl
  | cons next items ih =>
    obtain ⟨hitem, hnext⟩ := List.forall_mem_cons.1 h
    -- here the comma pays for it
    rw [itemChars, List.cons_append, List.length_append, List.length_cons] at hn
    obtain ⟨n, rfl⟩ := Nat.exists_eq_add_of_lt (show 0 < n by omega)
    replace hitem := hitem n (itemChars (next :: items) ++ rest) (by omega)
      (endsNumber_itemChars _)
    have hrest := ih hnext (n := n) (by omega)
    have hcomma : itemChars (next :: items) ++ rest =
        ',' :: (next.chars ++ (itemChars items ++ rest)) := by simp [itemChars]
    have hskip (cs : List Char) : skipBlanks (',' :: cs) = ',' :: cs := rfl
    rw [zero_add, items?, hitem, hcomma]
    simp [hskip, hrest]

/-- The name of a member is read back, and its value follows. -/
theorem members?_stringChars_append (name : JsonText) :
    members? (n + 1) (stringChars name ++ ':' :: cs) = (value? n cs).bind fun p =>
      match skipBlanks p.2 with
      | '}' :: rest => some ([(name, p.1)], rest)
      | ',' :: rest => (members? n rest).bind fun q => some ((name, p.1) :: q.1, q.2)
      | _ => none := by
  obtain ⟨body, hbody, hname⟩ := string?_append name
  have hquote (cs : List Char) : skipBlanks ('"' :: cs) = '"' :: cs := rfl
  have hcolon (cs : List Char) : skipBlanks (':' :: cs) = ':' :: cs := rfl
  rw [members?, hbody, List.cons_append, hquote]
  simp only [hname, hcolon, Option.bind_eq_bind, Option.bind_some]
  rfl

/-- The members of an object are read one after another. -/
theorem members?_append {name : JsonText} {value : Json} {members : List (JsonText × Json)}
    (h : ∀ m ∈ (name, value) :: members, IsRead m.2)
    (hn : 2 * (stringChars name ++ ':' :: value.chars ++ memberChars members).length ≤ n)
    (rest : List Char) :
    members? n (stringChars name ++ ':' :: (value.chars ++ (memberChars members ++ rest))) =
      some ((name, value) :: members, rest) := by
  induction members generalizing name value n with
  | nil =>
    simp only [memberChars, List.length_append, List.length_cons, List.length_nil] at hn
    obtain ⟨n, rfl⟩ := Nat.exists_eq_add_of_lt (show 0 < n by omega)
    have hvalue := h _ List.mem_cons_self n (memberChars [] ++ rest) (by dsimp only; omega)
      (endsNumber_memberChars [])
    rw [zero_add, members?_stringChars_append, hvalue]
    rfl
  | cons next members ih =>
    obtain ⟨next, after⟩ := next
    obtain ⟨hvalue, hnext⟩ := List.forall_mem_cons.1 h
    simp only [memberChars, List.cons_append, List.length_append, List.length_cons] at hn
    obtain ⟨n, rfl⟩ := Nat.exists_eq_add_of_lt (show 0 < n by omega)
    replace hvalue := hvalue n (memberChars ((next, after) :: members) ++ rest)
      (by dsimp only; omega) (endsNumber_memberChars _)
    have hrest := ih hnext (n := n)
      (by simp only [List.length_append, List.length_cons]; omega)
    have hcomma : memberChars ((next, after) :: members) ++ rest =
        ',' :: (stringChars next ++ ':' :: (after.chars ++ (memberChars members ++ rest))) := by
      simp [memberChars]
    have hskip (cs : List Char) : skipBlanks (',' :: cs) = ',' :: cs := rfl
    rw [zero_add, members?_stringChars_append, hvalue, hcomma]
    simp [hskip, hrest]

/-- A value has characters, so there is a step to begin with. -/
theorem isRead_of_succ {value : Json} (h : value.WellFormed)
    (hread : ∀ n rest, 2 * value.chars.length ≤ n + 1 → EndsNumber rest →
      value? (n + 1) (value.chars ++ rest) = some (value, rest)) : value.IsRead := by
  intro n rest hn hrest
  obtain ⟨c, cs, hchars, -⟩ := head_chars h
  obtain ⟨n, rfl⟩ : ∃ k, n = k + 1 := by
    rw [hchars, List.length_cons] at hn
    exact Nat.exists_eq_add_of_le' (by omega)
  exact hread n rest hn hrest

/-- A value is read from its characters. -/
theorem WellFormed.isRead {value : Json} (h : value.WellFormed) : value.IsRead := by
  induction h with
  | null => exact isRead_of_succ .null fun n rest hn hrest => rfl
  | bool b => exact isRead_of_succ (.bool b) fun n rest hn hrest => by cases b <;> rfl
  | @number numeral h =>
    refine isRead_of_succ (.number h) fun n rest hn hrest => ?_
    obtain ⟨c, cs, hchars, hc⟩ := head_numeral h
    have hread := number?_append h hrest
    rw [hchars, List.cons_append] at hread
    rw [chars, hchars, List.cons_append, value?_number hc, hread]
    rfl
  | string text =>
    refine isRead_of_succ (.string text) fun n rest hn hrest => ?_
    obtain ⟨body, hchars, hread⟩ := string?_append text
    rw [chars, hchars, List.cons_append, value?_string, hread]
    rfl
  | @array items h ih =>
    refine isRead_of_succ (.array h) fun n rest hn hrest => ?_
    cases items with
    | nil => rfl
    | cons item items =>
      -- the reader looks at the first character, to tell an item from the end of the array
      obtain ⟨c, cs, hchars, hblank, hend⟩ := head_chars (h item List.mem_cons_self)
      have hitems := items?_append (n := n) ih
        (by simp only [chars, List.cons_append, List.length_cons] at hn; omega) rest
      rw [hchars, List.cons_append] at hitems
      rw [chars, List.cons_append, List.cons_append, List.append_assoc, hchars, List.cons_append,
        value?_array hblank hend, hitems]
      rfl
  | @object members h ih =>
    refine isRead_of_succ (.object h) fun n rest hn hrest => ?_
    match members with
    | [] => rfl
    | (name, value) :: members =>
      obtain ⟨body, hchars, -⟩ := string?_append name
      have hmembers := members?_append (n := n) ih
        (by
          simp only [chars, List.cons_append, List.length_append, List.length_cons] at hn ⊢
          omega)
        rest
      simp only [hchars, List.cons_append] at hmembers
      simp only [chars, hchars, List.cons_append, List.append_assoc]
      rw [value?_object, hmembers]
      rfl

end Values

/-! ### Texts -/

/-- A text is a JSON value, apart from blanks around it. -/
def Denotes (text : String) (value : Json) : Prop :=
  ∃ rest, parse? text.toList = some (value, rest) ∧ ∀ c ∈ rest, isBlank c = true

/-- The compact text of a value denotes that value. -/
theorem denotes_text {value : Json} (h : value.WellFormed) : Denotes value.text value := by
  refine ⟨[], ?_, nofun⟩
  have hread := h.isRead (2 * value.chars.length + 2) [] (by omega) nofun
  rw [List.append_nil] at hread
  simpa [text, parse?] using hread

end Json

/-- A text is read as the value that it denotes is decoded. -/
theorem JsonForm.read_of_denotes {α : Type} [JsonForm α] {text : String} {value : Json}
    (h : Json.Denotes text value) : read text = (decode value : Except ReadError α) := by
  obtain ⟨rest, hparse, hblank⟩ := h
  have hrest : (Json.skipBlanks rest).isEmpty := by
    simpa [Json.skipBlanks, List.dropWhile_eq_nil_iff] using hblank
  rw [read, hparse]
  simp only [hrest, if_true]
  cases (decode value : Except ReadError α) <;> rfl

/-- What is written is read back if it is decoded from its JSON form. -/
theorem JsonForm.read_write {α : Type} [JsonForm α] {a : α} (hform : (encode a).WellFormed)
    (h : decode (encode a) = .ok a) : read (write a) = .ok a :=
  (read_of_denotes (Json.denotes_text hform)).trans h

end TrajectoryEvents
