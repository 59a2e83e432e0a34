import Descent.Numeral

/-!
# Binary floating point

`Binary64` is a number in the 64-bit binary format, held as its bits: a sign, eleven bits of
exponent and 52 of fraction. A finite number is `± significand · 2 ^ exponent`. Exact numbers
enter through `ofRatio`, which rounds to the nearest number and a tie to the even significand;
integers, quotients of integers and decimal literals are all ratios. The arithmetic between two
numbers is the machine's.
-/

namespace Descent

structure Binary64 where
  bits : UInt64
deriving DecidableEq

namespace Binary64

instance : Inhabited Binary64 := ⟨⟨0⟩⟩

def negative (x : Binary64) : Bool := decide (Nat.pow 2 63 ≤ x.bits.toNat)

def field (x : Binary64) : Nat := x.bits.toNat / Nat.pow 2 52 % Nat.pow 2 11

def fraction (x : Binary64) : Nat := x.bits.toNat % Nat.pow 2 52

def IsFinite (x : Binary64) : Prop := x.field ≠ 2047

instance (x : Binary64) : Decidable x.IsFinite := inferInstanceAs (Decidable (_ ≠ _))

def isNaN (x : Binary64) : Bool := x.field = 2047 && x.fraction ≠ 0

/-- The integral significand of a finite number, with the hidden bit of a normal one. -/
def significand (x : Binary64) : Nat :=
  if x.field = 0 then x.fraction else Nat.pow 2 52 + x.fraction

/-- The power of two that scales the significand of a finite number. -/
def exponent (x : Binary64) : Int := max (x.field : Int) 1 - 1075

def ofParts (negative : Bool) (magnitude : Nat) : Binary64 :=
  ⟨UInt64.ofNat ((if negative then Nat.pow 2 63 else 0) + magnitude)⟩

/-- The bits of positive infinity, above those of every finite magnitude. -/
def infinityBits : Nat := 2047 * Nat.pow 2 52

def infinity (negative : Bool) : Binary64 := ofParts negative infinityBits

/-- The quotient rounded to the nearest integer, a tie to the even one. -/
def roundQuotient (num den : Nat) : Nat :=
  let quotient := num / den
  let twice := 2 * (num % den)
  if den < twice ∨ (den = twice ∧ quotient % 2 = 1) then quotient + 1 else quotient

/-- `num / den / 2 ^ scale` as a pair of natural numbers. -/
def scaled (num den : Nat) (scale : Int) : Nat × Nat :=
  (num * Nat.pow 2 (-scale).toNat, den * Nat.pow 2 scale.toNat)

/-- The power of two that leaves `num / den` between `2 ^ 52` and `2 ^ 53`, but not one below the
least exponent. -/
def scaleFor (num den : Nat) : Int :=
  let guess := max ((Nat.log2 num : Int) - Nat.log2 den - 53) (-1074)
  let (n, d) := scaled num den guess
  if Nat.pow 2 53 ≤ n / d then guess + 1 else guess

/-- The bits of the magnitude nearest to `num / den`. A significand that rounds up to `2 ^ 53`
carries into the exponent. -/
def magnitudeOfRatio (num den : Nat) : Nat :=
  if num = 0 then 0 else
  let scale := scaleFor num den
  let (n, d) := scaled num den scale
  min ((scale + 1074).toNat * Nat.pow 2 52 + roundQuotient n d) infinityBits

/-- The number nearest to `± num / den` for a positive `den`. -/
def ofRatio (negative : Bool) (num den : Nat) : Binary64 :=
  ofParts negative (magnitudeOfRatio num den)

def ofInt? (i : Int) : Option Binary64 :=
  let x := ofRatio (decide (i < 0)) i.natAbs 1
  if x.IsFinite then some x else none

def ofQuotient? (a b : Int) : Option Binary64 :=
  let x := ofRatio (decide (a < 0) ^^ decide (b < 0)) a.natAbs b.natAbs
  if x.IsFinite then some x else none

/-- The number nearest to a decimal. Exponents that decide the result by themselves, `10 ^ 310`
and up or a value below `10 ^ (-324)`, are not expanded. -/
def ofDecimal (d : Decimal) : Binary64 :=
  if d.coefficient = 0 then ofParts d.negative 0
  else if 310 ≤ d.exponent then infinity d.negative
  else if d.exponent + (Nat.log2 d.coefficient + 1) < -324 then ofParts d.negative 0
  else
    ofRatio d.negative (d.coefficient * Nat.pow 10 d.exponent.toNat)
      (Nat.pow 10 (-d.exponent).toNat)

def toFloat (x : Binary64) : Float := Float.ofBits x.bits

def ofFloat (x : Float) : Binary64 := ⟨x.toBits⟩

def add (x y : Binary64) : Binary64 := ofFloat (x.toFloat + y.toFloat)

def sub (x y : Binary64) : Binary64 := ofFloat (x.toFloat - y.toFloat)

def mul (x y : Binary64) : Binary64 := ofFloat (x.toFloat * y.toFloat)

def div (x y : Binary64) : Binary64 := ofFloat (x.toFloat / y.toFloat)

def isZero (x : Binary64) : Bool := x.field = 0 && x.fraction = 0

/-- Equality of value: the two zeros are equal, and what is not a number equals nothing. -/
def same (x y : Binary64) : Bool :=
  !x.isNaN && !y.isNaN && (x = y || (x.isZero && y.isZero))

/-- The integral part of a finite number. -/
def truncate (x : Binary64) : Int :=
  let (n, d) := scaled x.significand 1 (-x.exponent)
  if x.negative then -((n / d : Nat) : Int) else (n / d : Nat)

/-- Whether a finite number has exactly the value of an integer. -/
def isInt (x : Binary64) (i : Int) : Bool :=
  decide x.IsFinite &&
    (let (n, d) := scaled x.significand 1 (-x.exponent)
     n = i.natAbs * d && (n = 0 || x.negative = decide (i < 0)))

end Binary64
end Descent
