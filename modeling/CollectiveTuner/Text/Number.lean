/-!
# Decimal integers as users write them

A number is a run of ASCII digits, with an optional plus sign in front. An empty run of digits
is refused, and so is a value outside the range.
-/

namespace CollectiveTuner.Text

/-- The value of an ASCII digit. -/
def digitValue? (c : Char) : Option Nat :=
  if '0' ≤ c ∧ c ≤ '9' then some (c.toNat - '0'.toNat) else none

/-- Extends `value` by the decimal digits of the text. -/
def digitsFrom? (value : Nat) : List Char → Option Nat
  | [] => some value
  | c :: rest => (digitValue? c).bind fun digit => digitsFrom? (10 * value + digit) rest

/-- The value of a nonempty run of ASCII digits. -/
def digits? (text : List Char) : Option Nat :=
  if text.isEmpty then none else digitsFrom? 0 text

/-- An unsigned number of at most `bits` bits, with an optional plus sign. -/
def unsigned? (bits : Nat) (text : List Char) : Option Nat :=
  let magnitude :=
    match text with
    | '+' :: rest => digits? rest
    | _ => digits? text
  magnitude.filter (· < 1 <<< bits)

end CollectiveTuner.Text
