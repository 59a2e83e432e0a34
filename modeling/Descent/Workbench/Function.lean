import Descent.Numeral.Liberal
import Descent.Workbench.Value

/-!
# Calls

What the functions of the workbench do with their arguments. An argument of the wrong kind, or a
call of something that takes another number of arguments, is the fault `wrongOperand`. The four
operations are defined on all values, since sums and products also take sequences; on expressions
over numbers that are not too high `Value.evaluate` is `Expr.evaluate` (`evaluate_ofExpr`).
-/

namespace Descent
namespace Workbench

namespace Value

def arithmetic (op : Number → Number → Except Fault Number) (v w : Value) : Except Fault Value :=
  match v.toNumber?, w.toNumber? with
  | some m, some n => (op m n).map number
  | _, _ => .error .wrongOperand

/-- The sum of two numbers, or two sequences of one kind put together. -/
def add : Value → Value → Except Fault Value
  | text s, text t => .ok (text (s ++ t))
  | list vs, list ws => .ok (list (vs ++ ws))
  | tuple vs, tuple ws => .ok (tuple (vs ++ ws))
  | v, w => arithmetic Number.add v w

/-- The integer that a value counts as. -/
def toInt? (v : Value) : Option Int :=
  match v.toNumber? with
  | some (.int i) => some i
  | _ => .none

/-- The number of elements beyond which no sequence can be addressed. -/
def addressLimit : Nat := Nat.pow 2 63

/-- The number of elements beyond which no sequence fits into memory. -/
def memoryLimit : Nat := Nat.pow 2 28

/-- A list repeated some number of times, a negative number meaning none. `tooLong` is the fault of
a result that cannot be addressed. -/
def repeatList {α : Type} (tooLong : Fault) (xs : List α) (times : Int) : Except Fault (List α) :=
  let size := xs.length * times.toNat
  if times < -addressLimit ∨ addressLimit ≤ times then .error .countTooLarge
  else if addressLimit ≤ size then .error tooLong
  else if memoryLimit < size then .error .outOfMemory
  else if xs = [] then .ok []
  else .ok (List.replicate times.toNat xs).flatten

/-- A sequence repeated as often as an integer says, if there is one of each. -/
def repeated? (v w : Value) : Option (Except Fault Value) := do
  let times ← w.toInt?
  match v with
  | text s => return (repeatList .textTooLong s times).map text
  | list vs => return (repeatList .outOfMemory vs times).map list
  | tuple vs => return (repeatList .outOfMemory vs times).map tuple
  | _ => .none

/-- The product of two numbers, or of a sequence and an integer. -/
def mul (v w : Value) : Except Fault Value :=
  match v.repeated? w <|> w.repeated? v with
  | some u => u
  | .none => arithmetic Number.mul v w

def apply : Operation → Value → Value → Except Fault Value
  | .add => add
  | .sub => arithmetic Number.sub
  | .mul => mul
  | .div => arithmetic Number.div

/-- The value of an expression of limited height, in the order of `Expr.evaluate`. The value of a
leaf is whatever it holds. -/
def evaluateWithin : Nat → Value → Except Fault Value
  | 0, _ => .error .tooDeep
  | _ + 1, leaf v => .ok v
  | n + 1, binary operator left right =>
    match Operation.of? operator with
    | .none => .error (.unknown operator)
    | some op => do
      let v ← left.evaluateWithin n
      let w ← right.evaluateWithin n
      apply op v w
  | _ + 1, _ => .error .notExpression

def evaluate (v : Value) : Except Fault Value := v.evaluateWithin nestingLimit

theorem apply_number (op : Operation) (m n : Number) :
    apply op (number m) (number n) = (op.apply m n).map number := by
  cases op with
  | add | sub | div => rfl
  | mul => cases m <;> cases n <;> rfl

theorem evaluateWithin_ofExpr {n : Nat} {e : Expr} (h : e.height < n) :
    (ofExpr e).evaluateWithin n = e.evaluate.map number := by
  induction e generalizing n with
  | number m =>
    obtain ⟨n, rfl⟩ : ∃ k, n = k + 1 := ⟨n - 1, by omega⟩
    rfl
  | binary operator l r ihl ihr =>
    obtain ⟨n, rfl⟩ : ∃ k, n = k + 1 := ⟨n - 1, by omega⟩
    simp only [Expr.height] at h
    rw [ofExpr, evaluateWithin, Expr.evaluate]
    cases Operation.of? operator with
    | none => rfl
    | some op =>
      simp only [ihl (show l.height < n by omega), ihr (show r.height < n by omega)]
      cases l.evaluate with
      | error e => rfl
      | ok a =>
        cases r.evaluate with
        | error e => rfl
        | ok b => exact apply_number op a b

/-- On expressions over numbers that are not too high, evaluation is that of `Expr`. -/
theorem evaluate_ofExpr {e : Expr} (h : e.height < nestingLimit) :
    (ofExpr e).evaluate = e.evaluate.map number :=
  evaluateWithin_ofExpr h

def length : Value → Except Fault Nat
  | text s => .ok s.length
  | list vs | tuple vs => .ok vs.length
  | dictionary es => .ok es.length
  | _ => .error .wrongOperand

/-- The elements of a value that can be gone through. -/
def elements : Value → Except Fault (List Value)
  | text s => .ok (s.map fun c => text [c])
  | list vs | tuple vs => .ok vs
  | dictionary es => .ok (es.map fun e => text e.1)
  | _ => .error .wrongOperand

/-- The first element of a sequence; the entries of a dictionary are found by key, not by place. -/
def head : Value → Except Fault Value
  | dictionary _ => .error (.unknown "0")
  | v => do
    match ← v.elements with
    | [] => .error .emptySequence
    | w :: _ => .ok w

def reverse : Value → Except Fault Value
  | text s => .ok (text s.reverse)
  | list vs => .ok (list vs.reverse)
  | tuple vs => .ok (tuple vs.reverse)
  | _ => .error .wrongOperand

/-- The integer that a text denotes, or that is left of a number without its fraction. -/
def truncate : Value → Except Fault Int
  | text t => Numeral.ofLiberal t
  | v => match v.toNumber? with
    | some n => n.truncate
    | .none => .error .wrongOperand

def toText : Value → Except Fault Text
  | text s => .ok s
  | _ => .error .wrongOperand

end Value

namespace Function

def call (f : Function) (v : Value) : Except Fault Value :=
  match f with
  | const w => .ok w
  | throw fault => .error fault
  | tag s => .ok (.tuple [.text s, v])
  | suffix s => match v with
    | .text t => .ok (.text (t ++ s))
    | _ => .error .wrongOperand
  | plus n => Value.arithmetic Number.add v (.int n)
  | id => .ok v
  | toInt => v.truncate.map .int
  | length => v.length.map fun n => .int n
  | join => do
    let parts ← (← v.elements).mapM Value.toText
    return .text parts.flatten
  | wrap => .ok (.list [v])
  | head => v.head
  | reverse => v.reverse
  | shown => v.shown.map .text
  | evaluate => v.evaluate

end Function

namespace Function2

def call (f : Function2) (v w : Value) : Except Fault Value :=
  match f with
  | add => Value.apply .add v w
  | sub => Value.apply .sub v w
  | mul => Value.apply .mul v w
  | div => Value.apply .div v w
  | pair => .ok (.tuple [v, w])
  | left => .ok v
  | right => .ok w

end Function2

namespace Value

def call (f v : Value) : Except Fault Value :=
  match f with
  | function f => f.call v
  | _ => .error .wrongOperand

def call2 (f v w : Value) : Except Fault Value :=
  match f with
  | function2 f => f.call v w
  | builder operator => .ok (binary operator v w)
  | _ => .error .wrongOperand

end Value

inductive Test where
  | eq (v : Value)
  | not (t : Test)
  /-- The value is part of a text. -/
  | within (s : Text)
  | between (low high : Text)
  | atMost (length : Int)
  | const (b : Bool)
  | throw (fault : Fault)

namespace Test

def holds (t : Test) (v : Value) : Except Fault Bool :=
  match t with
  | eq w => .ok (v.same w)
  | not t => (t.holds v).map (!·)
  | within s => v.toText.map fun part => Text.occursIn part s
  | between low high => v.toText.map fun s => low.le s && s.le high
  | atMost n => v.length.map fun length => decide ((length : Int) ≤ n)
  | const b => .ok b
  | throw fault => .error fault

end Test
end Workbench
end Descent
