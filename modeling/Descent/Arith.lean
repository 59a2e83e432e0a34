import Descent.Number

/-!
# Arithmetic expressions

Trees of binary operations over numbers, and their values. An operator is a text; `Operation.of?`
gives the four that have a meaning.
-/

namespace Descent

inductive Expr where
  | number (n : Number)
  | binary (operator : Text) (left right : Expr)
deriving DecidableEq

/-- The number of operators above the deepest number. -/
def Expr.height : Expr → Nat
  | number _ => 0
  | binary _ left right => max left.height right.height + 1

inductive Operation where
  | add | sub | mul | div
deriving DecidableEq

namespace Operation

def of? (operator : Text) : Option Operation :=
  if operator = "+" then some add
  else if operator = "-" then some sub
  else if operator = "*" then some mul
  else if operator = "/" then some div
  else none

def apply : Operation → Number → Number → Except Fault Number
  | add => Number.add
  | sub => Number.sub
  | mul => Number.mul
  | div => Number.div

end Operation

/-- The value of an expression. The operator is looked up first, then the left operand is
evaluated, then the right one. -/
def Expr.evaluate : Expr → Except Fault Number
  | number n => .ok n
  | binary operator left right =>
    match Operation.of? operator with
    | none => .error (.unknown operator)
    | some op => do
      let a ← left.evaluate
      let b ← right.evaluate
      op.apply a b

end Descent
