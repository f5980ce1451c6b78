/-!
# Decimal digits

The decimal digits of a natural number, most significant first, and the number that a list of
digits denotes. Main statement: `ofDigits_digits`, reading the digits of a number gives the number.
-/

namespace TrajectoryEvents

/-- A decimal digit. -/
abbrev Digit := Fin 10

namespace Digit

/-- The character that shows a digit. -/
def char (d : Digit) : Char := Char.ofNat (48 + d.val)

/-- The digit that a character shows. -/
def ofChar? (c : Char) : Option Digit :=
  if h : 48 ≤ c.toNat ∧ c.toNat < 58 then some ⟨c.toNat - 48, by omega⟩ else none

theorem ofChar?_char (d : Digit) : ofChar? d.char = some d := by
  revert d
  decide

end Digit

/-- The decimal digits of a number, most significant first; zero has one digit. -/
def digits (n : Nat) : List Digit :=
  if h : n < 10 then [⟨n, h⟩] else digits (n / 10) ++ [⟨n % 10, Nat.mod_lt n (by decide)⟩]

/-- The number of decimal digits of a number; zero has one digit. -/
def digitCount (n : Nat) : Nat :=
  if n < 10 then 1 else digitCount (n / 10) + 1

/-- The number that a list of digits denotes, most significant first. -/
def ofDigits (ds : List Digit) : Nat :=
  ds.foldl (fun acc d => acc * 10 + d.val) 0

theorem length_digits (n : Nat) : (digits n).length = digitCount n := by
  fun_induction digitCount n with
  | case1 n h => simp [digits, h]
  | case2 n h ih => rw [digits, dif_neg h, List.length_append, ih, List.length_singleton]

theorem digits_ne_nil (n : Nat) : digits n ≠ [] := by
  unfold digits
  split <;> simp

theorem digitCount_pos (n : Nat) : 0 < digitCount n := by
  unfold digitCount
  split <;> omega

/-- Appending a digit multiplies by ten and adds it. -/
theorem ofDigits_concat (ds : List Digit) (d : Digit) :
    ofDigits (ds ++ [d]) = ofDigits ds * 10 + d.val := by
  simp [ofDigits]

/-- Reading the digits of a number gives the number. -/
theorem ofDigits_digits (n : Nat) : ofDigits (digits n) = n := by
  fun_induction digits n with
  | case1 n h => simp [ofDigits]
  | case2 n h ih =>
    rw [ofDigits_concat, ih]
    exact Nat.div_add_mod' n 10

end TrajectoryEvents
