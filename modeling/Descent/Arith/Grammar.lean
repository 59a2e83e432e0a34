import Descent.Arith
import Descent.Parser.Literal

/-!
# The grammar of arithmetic

    expr   = term ( ( '+' | '-' ) term )*
    term   = factor ( ( '*' | '/' ) factor )*
    factor = number | '(' expr ')'
    number = digit+ ( '.' digit+ )?

Whitespace may follow every number, operator and parenthesis. Operators of one level nest to the
left. As in JSON, `self` is the reference that stands for `expr`.
-/

namespace Descent
namespace Arith

inductive Rule : Type → Type where
  | expr : Rule Expr

namespace Grammar

open Descent.Parser

variable {ρ : Type → Type}

def plusMinus : Parser ρ Text := (symbol "+").orElse (symbol "-")

def mulDiv : Parser ρ Text := (symbol "*").orElse (symbol "/")

/-- A numeral with a fraction. -/
def realNumeral : Parser ρ Text :=
  digits.bind fun whole => (char '.').keepRight (digits.map fun rest => whole ++ "." ++ rest)

/-- A numeral with a point is a floating number, any other an integer. -/
def numberOf (numeral : Text) : Except Fault Number :=
  if ('.' : CodePoint) ∈ numeral then Number.ofDecimal numeral else Number.ofInteger numeral

def number : Parser ρ Number := (token (realNumeral.orElse digits)).tryMap numberOf

/-- Operands joined by operators to a tree that nests to the left. -/
def chain (operand : Parser ρ Expr) (operator : Parser ρ Text) : Parser ρ Expr :=
  operand.chainLeft (operator.map fun op left right => .ok (.binary op left right))

variable (self : ρ Expr)

def factor : Parser ρ Expr :=
  firstOf [number.map .number, between (symbol "(") (symbol ")") (.ref self)]

def term : Parser ρ Expr := chain (factor self) mulDiv

def expr : Parser ρ Expr := chain (term self) plusMinus

end Grammar

def rules : Rules Rule
  | _, .expr => Grammar.expr .expr

/-- The grammar as a whole. -/
def parser : Parser Rule Expr := Grammar.expr .expr

end Arith
end Descent
