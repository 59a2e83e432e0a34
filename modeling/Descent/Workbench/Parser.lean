import Descent.Arith.Grammar
import Descent.Json.Grammar
import Descent.Workbench.Function

/-!
# Parsers over values

The constructors of `Parser` for the values of the workbench, where functions and predicates are
values and may turn out not to fit. References are names that the user defines, besides those of
the two grammars.
-/

namespace Descent
namespace Workbench

inductive Rule : Type → Type where
  | named (name : Text) : Rule Value
  | json : Rule Json
  | expr : Rule Expr

abbrev ValueParser := Parser Rule Value

/-- The rules under which names have the given parsers. -/
def rules (definitions : List (Text × ValueParser)) : Rules Rule
  | _, .named name => (definitions.lookup name).getD (.throw (.unknown name))
  | _, .json => Json.Grammar.element .json
  | _, .expr => Arith.Grammar.expr .expr

namespace ValueParser

def ofChar (p : Parser Rule CodePoint) : ValueParser := p.map fun c => .text [c]

def ofText (p : Parser Rule Text) : ValueParser := p.map .text

def ofChars (p : Parser Rule Text) : ValueParser :=
  p.map fun cs => .list (cs.map fun c => .text [c])

def ofJson (p : Parser Rule Json) : ValueParser := p.map Value.ofJson

def ofExpr (p : Parser Rule Expr) : ValueParser := p.map Value.ofExpr

/-- The function that builds an expression, from a parser of its operator. -/
def ofOperator (p : Parser Rule Text) : ValueParser := p.map .builder

def eof : ValueParser := Parser.eof.map fun _ => .none

def filter (t : Test) (description : Text) (p : ValueParser) : ValueParser :=
  Parser.filter t.holds Value.shown description p

def satisfy (t : Test) (description : Text) : ValueParser := filter t description (ofChar .anyChar)

/-- A character that is equal to a value, which no value is but a text of length one. Others fail
everywhere, and stop the parse if the message of the failure cannot show them. -/
def charOf (v : Value) : Parser Rule CodePoint :=
  match v.shown with
  | .ok description => Parser.satisfy (fun c => Value.same (.text [c]) v) description
  | .error e => .throw e

/-- The characters that are equal to some values, in order. -/
def charsOf : List Value → Parser Rule Text
  | [] => .pure []
  | v :: vs => (charOf v).bind fun c => (charsOf vs).map fun cs => c :: cs

def apply (p pf : ValueParser) : ValueParser := Parser.apply p (pf.map Value.call)

def both (p q : ValueParser) : ValueParser := (Parser.both p q).map fun (v, w) => .tuple [v, w]

def many (p : ValueParser) : ValueParser := Parser.map .list (Parser.many p)

def some (p : ValueParser) : ValueParser := Parser.map .list (Parser.some p)

def sepBy (p separator : ValueParser) : ValueParser := Parser.map .list (Parser.sepBy p separator)

def sepBySome (p separator : ValueParser) : ValueParser :=
  Parser.map .list (Parser.sepBySome p separator)

def chainLeft (p operator : ValueParser) : ValueParser :=
  Parser.chainLeft p (operator.map Value.call2)

def trace (name : Text) (p : ValueParser) : ValueParser := Parser.trace name Value.quoted p

/-- A fault in place of a parser stops the parse. -/
def orRaise (p : Except Fault ValueParser) : ValueParser :=
  match p with
  | .ok p => p
  | .error e => .throw e

/-! ### Continuations -/

/-- Succeeds with what a function makes of a value. -/
def pureCall (f : Function) (v : Value) : ValueParser := orRaise ((f.call v).map .pure)

def pairWith (p : ValueParser) (v : Value) : ValueParser := p.map fun w => .tuple [v, w]

/-- The literal that a value spells. -/
def literalOf (v : Value) : ValueParser := orRaise (v.elements.map fun vs => ofText (charsOf vs))

def failWith (message : Text) (v : Value) : ValueParser :=
  orRaise (v.shown.map fun t => .fail (message ++ t))

/-- The parser of the first case that is equal to a value. -/
def switch (cases : List (Value × ValueParser)) (default : ValueParser) (v : Value) : ValueParser :=
  ((cases.find? fun e => v.same e.1).map (·.2)).getD default

def count (p : ValueParser) (v : Value) : ValueParser :=
  match v.toInt? with
  | .some n => Parser.map .list (Parser.replicate p n.toNat)
  | .none => .throw .wrongOperand

end ValueParser
end Workbench
end Descent
