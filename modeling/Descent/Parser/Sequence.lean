import Descent.Parser

/-!
# Sequences, choices and lists

Parsers put together from the constructors of `Parser`: sequences that keep one value or both,
choices from a list, lists with and without separators.
-/

namespace Descent
namespace Parser

variable {ρ : Type → Type} {α β γ : Type}

def map (f : α → β) (p : Parser ρ α) : Parser ρ β := p.tryMap fun v => .ok (f v)

instance : Monad (Parser ρ) where
  pure := .pure
  bind := .bind
  map := map

/-- Applies a parsed function to the value parsed after it. -/
def apply (p : Parser ρ α) (pf : Parser ρ (α → Except Fault β)) : Parser ρ β :=
  pf.bind fun f => p.tryMap f

def both (p : Parser ρ α) (q : Parser ρ β) : Parser ρ (α × β) :=
  p.bind fun v => q.map fun w => (v, w)

def keepRight (p : Parser ρ α) (q : Parser ρ β) : Parser ρ β := p.bind fun _ => q

def keepLeft (p : Parser ρ α) (q : Parser ρ β) : Parser ρ α := p.bind fun v => q.map fun _ => v

def between (opening : Parser ρ β) (closing : Parser ρ γ) (p : Parser ρ α) : Parser ρ α :=
  opening.bind fun _ => p.bind fun v => closing.bind fun _ => .pure v

/-- A parser that always fails, the identity of choice. -/
def empty : Parser ρ α := .fail "Empty parser"

def firstOf (ps : List (Parser ρ α)) : Parser ρ α := .anyOf ps.length fun i => ps[i]

/-- A choice from parsers that are built when their turn comes. -/
def lazyFirstOf (ps : List (Text × Parser ρ α)) : Parser ρ α :=
  firstOf (ps.map fun (note, p) => .delay note p)

def option (default : α) (p : Parser ρ α) : Parser ρ α := p.orElse (.pure default)

def some (p : Parser ρ α) : Parser ρ (List α) := p.bind fun v => p.many.map fun vs => v :: vs

/-- One or more items with separators between them. -/
def sepBySome (p : Parser ρ α) (separator : Parser ρ β) : Parser ρ (List α) :=
  p.bind fun v => (separator.keepRight p).many.map fun vs => v :: vs

/-- Any number of items with separators between them. -/
def sepBy (p : Parser ρ α) (separator : Parser ρ β) : Parser ρ (List α) :=
  (p.sepBySome separator).orElse (.pure [])

/-- A fixed number of repetitions. -/
def replicate (p : Parser ρ α) : Nat → Parser ρ (List α)
  | 0 => .pure []
  | n + 1 => p.bind fun v => (p.replicate n).map fun vs => v :: vs

end Parser
end Descent
