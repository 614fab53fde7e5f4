/-!
# Numerals

A numeral is an optional plus sign followed by at least one digit of the radix; any number
of leading zeros is allowed and there is no minus sign. Letters stand for the digits ten
and up in either case. A numeral above the given limit is refused.
-/

namespace NesMachine.Text

/-- The value of a digit in a radix of at most sixteen. -/
def digitValue (radix : Nat) (c : Char) : Option Nat :=
  let value :=
    if '0' ≤ c ∧ c ≤ '9' then some (c.toNat - 48)
    else if 'a' ≤ c ∧ c ≤ 'f' then some (c.toNat - 87)
    else if 'A' ≤ c ∧ c ≤ 'F' then some (c.toNat - 55)
    else none
  value.filter (· < radix)

/-- The number that a run of digits continues, if every character is a digit. -/
def readDigits (radix : Nat) : Nat → List Char → Option Nat
  | acc, [] => some acc
  | acc, c :: cs =>
    match digitValue radix c with
    | some d => readDigits radix (acc * radix + d) cs
    | none => none

/-- Drops one leading plus sign. -/
def dropPlus : List Char → List Char
  | '+' :: cs => cs
  | cs => cs

/-- The value of a numeral, if the text is one and does not exceed the limit. -/
def numeral (radix limit : Nat) (text : List Char) : Option Nat :=
  match dropPlus text with
  | [] => none
  | digits => (readDigits radix 0 digits).filter (· ≤ limit)

theorem numeral_le {radix limit n : Nat} {text : List Char}
    (h : numeral radix limit text = some n) : n ≤ limit := by
  unfold numeral at h
  split at h
  · cases h
  · simpa using (Option.filter_eq_some_iff.1 h).2

end NesMachine.Text
