import Descent.Binary64.Shortest

/-!
# Numbers

A `Number` is an integer of any size or a floating number. Sums, differences and products of
integers are exact; a division of integers gives the nearest floating number, and an operation with
one floating operand converts the other.
-/

namespace Descent

inductive Number where
  | int (i : Int)
  | float (x : Binary64)
deriving DecidableEq

namespace Number

instance : Inhabited Number := ⟨.int 0⟩

def ofInteger (t : Text) : Except Fault Number := (Numeral.toInt t).map int

/-- The floating number nearest to a decimal literal. -/
def ofDecimal (t : Text) : Except Fault Number :=
  match Decimal.ofText? t with
  | some d => .ok (float (.ofDecimal d))
  | none => .error .notNumeral

def toText : Number → Except Fault Text
  | int i => Numeral.ofInt i
  | float x => .ok x.toText

/-- Equality of value: an integer and a floating number are equal if they are exactly so. -/
def same : Number → Number → Bool
  | int i, int j => i = j
  | int i, float x => x.isInt i
  | float x, int i => x.isInt i
  | float x, float y => x.same y

def truncate : Number → Except Fault Int
  | int i => .ok i
  | float x =>
    if x.IsFinite then .ok x.truncate
    else if x.isNaN then .error .notNumeral
    else .error .infiniteInteger

def toBinary64 : Number → Except Fault Binary64
  | int i => match Binary64.ofInt? i with
    | some x => .ok x
    | none => .error .integerTooLarge
  | float x => .ok x

/-- Converts both operands, the left one first, and applies a floating operation. -/
def floating (op : Binary64 → Binary64 → Except Fault Binary64) (a b : Number) :
    Except Fault Number := do
  let x ← a.toBinary64
  let y ← b.toBinary64
  let z ← op x y
  return float z

def add : Number → Number → Except Fault Number
  | int i, int j => .ok (int (i + j))
  | a, b => floating (fun x y => .ok (x.add y)) a b

def sub : Number → Number → Except Fault Number
  | int i, int j => .ok (int (i - j))
  | a, b => floating (fun x y => .ok (x.sub y)) a b

def mul : Number → Number → Except Fault Number
  | int i, int j => .ok (int (i * j))
  | a, b => floating (fun x y => .ok (x.mul y)) a b

def div : Number → Number → Except Fault Number
  | int i, int j =>
    if j = 0 then .error .zeroDivisor
    else match Binary64.ofQuotient? i j with
      | some x => .ok (float x)
      | none => .error .quotientTooLarge
  | a, b =>
    floating (fun x y => if y.isZero then .error .floatZeroDivisor else .ok (x.div y)) a b

end Number
end Descent
