import Descent.Binary64

/-!
# Shortest decimals

The text of a `Binary64` has the fewest digits that read back as the same number, and among those
the digits nearest to it. `Binary64.shortest` tries one digit, then two, and so on: the decimals
of that many digits form a grid, and if any point of a grid rounds to the number, so does one of
the number's two neighbours on it.
-/

namespace Descent

/-- A positive decimal `coefficient · 10 ^ exponent`. -/
structure Digits where
  coefficient : Nat
  exponent : Int
deriving DecidableEq

namespace Binary64

/-- The bounds of the interval of reals that round to `significand · 2 ^ exponent`, in quarters of
`2 ^ exponent`. Below a power of two the numbers lie twice as close. -/
def roundingBounds (x : Binary64) : Nat × Nat :=
  (4 * x.significand - (if x.fraction = 0 ∧ 1 < x.field then 1 else 2), 4 * x.significand + 2)

/-- The largest `e` with `10 ^ e ≤ num / den`, from a first guess that is off by one at most. -/
def decimalMagnitude (num den : Nat) : Int :=
  let reaches (e : Int) : Bool := den * Nat.pow 10 e.toNat ≤ num * Nat.pow 10 (-e).toNat
  let guess := ((Nat.log2 num : Int) - Nat.log2 den) * 30103 / 100000
  if reaches (guess + 1) then guess + 1 else if reaches guess then guess else guess - 1

/-- The neighbour of a positive finite number on the grid `10 ^ e` that reads back as the number,
the nearer one if both do, and of two equally near ones the even one. -/
def neighbour? (x : Binary64) (e : Int) : Option Nat :=
  let unit := Nat.pow 2 x.exponent.toNat * Nat.pow 10 (-e).toNat
  let den := Nat.pow 2 (-x.exponent).toNat * Nat.pow 10 e.toNat
  let (low, high) := x.roundingBounds
  let closed := x.significand % 2 = 0
  let inside (n : Nat) : Bool :=
    if closed then low * unit ≤ 4 * n * den ∧ 4 * n * den ≤ high * unit
    else low * unit < 4 * n * den ∧ 4 * n * den < high * unit
  let below := x.significand * unit / den
  let twice := 2 * (x.significand * unit % den)
  match inside below, inside (below + 1) with
  | true, true =>
    some (if twice < den ∨ (twice = den ∧ below % 2 = 0) then below else below + 1)
  | true, false => some below
  | false, true => some (below + 1)
  | false, false => none

/-- The digits of a positive finite number: the first grid with a neighbour that reads back. -/
def shortest (x : Binary64) : Digits :=
  let top := decimalMagnitude (x.significand * Nat.pow 2 x.exponent.toNat)
    (Nat.pow 2 (-x.exponent).toNat)
  let grid (n : Nat) : Option Digits :=
    let e := top - n
    (x.neighbour? e).map (⟨·, e⟩)
  ((List.range 17).findSome? grid).getD ⟨0, 0⟩

end Binary64

namespace Digits

/-- Drops trailing zeros of a written coefficient and counts them. -/
def trim (digits : Text) : Text :=
  (digits.reverse.dropWhile (· = ('0' : CodePoint))).reverse

/-- A point stands among the digits while the exponent of the first digit is at least -4 and below
16; otherwise the first digit is followed by the others as a fraction and by an exponent with a
sign and at least two digits. -/
def toText (d : Digits) : Text :=
  let zeros (n : Nat) : Text := List.replicate n '0'
  let written := Text.ofNat d.coefficient
  let digits := trim written
  let point : Int := written.length + d.exponent
  if -4 < point ∧ point ≤ 16 then
    let n := point.toNat
    let whole : Text := if n = 0 then "0" else digits.take n ++ zeros (n - digits.length)
    let rest : Text := if digits.length ≤ n then "0" else zeros (-point).toNat ++ digits.drop n
    whole ++ "." ++ rest
  else
    let scale := point - 1
    let rest : Text := if digits.length ≤ 1 then [] else "." ++ digits.drop 1
    let mark : Text := if scale < 0 then "e-" else "e+"
    let exponent := Text.ofNat scale.natAbs
    digits.take 1 ++ rest ++ mark ++ zeros (2 - exponent.length) ++ exponent

end Digits

namespace Binary64

def toText (x : Binary64) : Text :=
  if x.isNaN then "nan"
  else
    let sign : Text := if x.negative then "-" else []
    if !x.IsFinite then sign ++ "inf"
    else if x.isZero then sign ++ "0.0"
    else sign ++ x.shortest.toText

end Binary64
end Descent
