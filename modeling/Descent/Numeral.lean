import Descent.Fault

/-!
# Numerals

Decimal numerals. `Numeral.toNat` gives a run of digits its value, `Numeral.split` takes the longest
run of digits off a text, `Numeral.toInt` reads a signed integer of bounded length and
`Numeral.ofInt` writes one, and `Decimal.ofText?` reads a signed literal with a fraction and an
exponent, of any length, as `± coefficient · 10 ^ exponent`.
-/

namespace Descent

abbrev CodePoint.IsDigit (c : CodePoint) : Prop := '0' ≤ c ∧ c ≤ '9'

namespace Numeral

def toNat (digits : Text) : Nat :=
  digits.foldl (fun n d => 10 * n + (d.val - 48)) 0

/-- The longest run of digits at the front, and what follows it. -/
def split (t : Text) : Text × Text :=
  (t.takeWhile (·.IsDigit), t.dropWhile (·.IsDigit))

theorem split_append (t : Text) : (split t).1 ++ (split t).2 = t :=
  List.takeWhile_append_dropWhile

/-- Whether a minus sign stands in front, and the text without its sign. -/
def splitSign : Text → Bool × Text
  | [] => (false, [])
  | c :: t => if c = '-' then (true, t) else if c = '+' then (false, t) else (false, c :: t)

/-- The largest number of digits of an integer numeral, leading zeros included, that is read or
written. -/
def digitLimit : Nat := 4300

/-- Reads an integer: a sign, if any, and digits to the end of the text. -/
def toInt (t : Text) : Except Fault Int :=
  let (negative, digits) := splitSign t
  if digits = [] ∨ ∃ c ∈ digits, ¬ c.IsDigit then .error .notNumeral
  else if digitLimit < digits.length then .error .numeralTooLong
  else .ok (if negative then -(toNat digits : Int) else toNat digits)

/-- Writes an integer: a minus sign for a negative one, and the digits of its magnitude. -/
def ofInt (i : Int) : Except Fault Text :=
  if digitLimit < (Text.ofNat i.natAbs).length then .error .numeralTooLong else .ok (Text.ofInt i)

end Numeral

/-- The number `± coefficient · 10 ^ exponent`. -/
structure Decimal where
  negative : Bool
  coefficient : Nat
  exponent : Int
deriving DecidableEq

namespace Decimal

/-- The fraction digits behind a point, and what follows them. -/
def splitFraction : Text → Text × Text
  | [] => ([], [])
  | c :: t => if c = '.' then Numeral.split t else ([], c :: t)

/-- The exponent that makes up a whole text, zero for the empty text. -/
def exponent? : Text → Option Int
  | [] => some 0
  | c :: t =>
    let (negative, digits) := Numeral.splitSign t
    if (c = 'e' ∨ c = 'E') ∧ digits ≠ [] ∧ ∀ d ∈ digits, d.IsDigit then
      some (if negative then -(Numeral.toNat digits : Int) else Numeral.toNat digits)
    else none

/-- Reads a sign, digits, a fraction and an exponent, all but the digits optional. -/
def ofText? (t : Text) : Option Decimal :=
  let (negative, unsigned) := Numeral.splitSign t
  let (integer, rest) := Numeral.split unsigned
  let (fraction, rest) := splitFraction rest
  if integer = [] then none
  else (exponent? rest).map fun e =>
    ⟨negative, Numeral.toNat (integer ++ fraction), e - fraction.length⟩

end Decimal
end Descent
