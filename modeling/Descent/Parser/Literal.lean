import Descent.Numeral
import Descent.Parser.Sequence

/-!
# Characters and literals

Character classes, exact literals, and tokens, which take the whitespace behind them along. The
classes are ASCII ones.
-/

namespace Descent
namespace Parser

variable {ρ : Type → Type} {α : Type}

/-- Takes one character that satisfies a predicate. -/
def satisfy (accepts : CodePoint → Bool) (description : Text) : Parser ρ CodePoint :=
  anyChar.filter (fun c => .ok (accepts c)) (fun c => .ok [c]) description

def digit : Parser ρ CodePoint := satisfy (·.IsDigit) "a digit"

def lower : Parser ρ CodePoint := satisfy (fun c => 'a' ≤ c ∧ c ≤ 'z') "a lower case letter"

def upper : Parser ρ CodePoint := satisfy (fun c => 'A' ≤ c ∧ c ≤ 'Z') "an upper case letter"

/-- The characters that separate tokens. -/
def blanks : Text := " \t\n\r"

def whitespace : Parser ρ CodePoint := satisfy (· ∈ blanks) "a whitespace"

def hexDigit : Parser ρ CodePoint :=
  satisfy (fun c => c.IsDigit ∨ c ∈ ("abcdefABCDEF" : Text)) "a hex digit"

def letter : Parser ρ CodePoint := lower.orElse upper

def alphanum : Parser ρ CodePoint := letter.orElse digit

def whitespaces : Parser ρ Text := whitespace.many

/-- One or more digits. -/
def digits : Parser ρ Text := digit.some

def oneOf (cs : Text) : Parser ρ CodePoint := satisfy (· ∈ cs) ("one of " ++ cs)

def char (c : CodePoint) : Parser ρ CodePoint := satisfy (· = c) [c]

/-- An exact literal; a mismatch is reported at the first character that differs. -/
def string : Text → Parser ρ Text
  | [] => .pure []
  | c :: cs => (char c).bind fun d => (string cs).map fun ds => d :: ds

/-- A parser followed by any amount of whitespace. -/
def token (p : Parser ρ α) : Parser ρ α := p.keepLeft whitespaces

def symbol (s : Text) : Parser ρ Text := token (string s)

end Parser
end Descent
