import Descent.Run

/-!
# Parsers

A `Parser ρ α` is a term that says how to get a value of type `α` off the front of a text. `ρ` is
the type of references: a grammar that uses itself does so by `ref`, and `Rules` say which parser
each reference stands for. `Parser.run` is the meaning of a term at a cursor.

Callbacks are functions that may end in a fault. A run spends one unit of depth per nested term, so
that nesting comes to an end on every grammar, also on one that refers to itself without consuming;
loops cost nothing. More depth changes no run that had enough.
-/

namespace Descent

inductive Parser (ρ : Type → Type) : Type → Type 1 where
  | anyChar : Parser ρ CodePoint
  | eof : Parser ρ Unit
  | pure {α : Type} (v : α) : Parser ρ α
  | fail {α : Type} (message : Text) : Parser ρ α
  | throw {α : Type} (fault : Fault) : Parser ρ α
  | bind {α β : Type} (p : Parser ρ α) (k : α → Parser ρ β) : Parser ρ β
  | tryMap {α β : Type} (f : α → Except Fault β) (p : Parser ρ α) : Parser ρ β
  /-- Takes a value only if it is accepted; `shown` words a value that is not. -/
  | filter {α : Type} (accepts : α → Except Fault Bool) (shown : α → Except Fault Text)
      (description : Text) (p : Parser ρ α) : Parser ρ α
  /-- Words a failure that got no further than the start. -/
  | label {α : Type} (description : Text) (p : Parser ρ α) : Parser ρ α
  /-- Tries the second parser from the start if the first one fails. -/
  | orElse {α : Type} (p q : Parser ρ α) : Parser ρ α
  /-- Tries parsers in order, each from the start, until one succeeds. -/
  | anyOf {α : Type} (n : Nat) (ps : Fin n → Parser ρ α) : Parser ρ α
  | many {α : Type} (p : Parser ρ α) : Parser ρ (List α)
  /-- Operands with operators between them, combined from the left as they are read. -/
  | chainLeft {α : Type} (operand : Parser ρ α) (operator : Parser ρ (α → α → Except Fault α)) :
      Parser ρ α
  /-- Records an attempt and how it ended. -/
  | trace {α : Type} (name : Text) (shown : α → Except Fault Text) (p : Parser ρ α) : Parser ρ α
  /-- A parser that is built when it is needed, which leaves a note. -/
  | delay {α : Type} (note : Text) (p : Parser ρ α) : Parser ρ α
  | ref {α : Type} (r : ρ α) : Parser ρ α

abbrev Rules (ρ : Type → Type) := (α : Type) → ρ α → Parser ρ α

namespace Cursor

def readChar (c : Cursor) : Outcome CodePoint :=
  if c.AtEnd then .failure ⟨c.position, "Unexpected end of input"⟩
  else match c.current, c.advance with
    | .ok x, .ok d => .success x d
    | .error e, _ | _, .error e => .abort (.fault e)

def readEnd (c : Cursor) : Outcome Unit :=
  if c.AtEnd then .success () c
  else match c.current with
    | .ok x => .failure ⟨c.position, "Expected end of input, but got " ++ [x]⟩
    | .error e => .abort (.fault e)

end Cursor

namespace Parser

variable {ρ : Type → Type} {α β γ : Type}

/-- The run of a parser, where traced parsers leave events only if `verbose` is set. -/
def run (rules : Rules ρ) (verbose : Bool) : Nat → {α : Type} → Parser ρ α → Cursor → Run α
  | 0, _, _, _ => .abort .tooDeep
  | _ + 1, _, anyChar, c => ⟨c.readChar, []⟩
  | _ + 1, _, eof, c => ⟨c.readEnd, []⟩
  | _ + 1, _, pure v, c => .success v c
  | _ + 1, _, fail message, c => .failure ⟨c.position, message⟩
  | _ + 1, _, throw fault, _ => .abort (.fault fault)
  | n + 1, _, bind p k, c =>
    (run rules verbose n p c).andThen fun v d => run rules verbose n (k v) d
  | n + 1, _, tryMap f p, c => (run rules verbose n p c).map (·.tryMap f)
  | n + 1, _, filter accepts shown description p, c =>
    (run rules verbose n p c).map (·.filter accepts shown description c.position)
  | n + 1, _, label description p, c =>
    (run rules verbose n p c).map (·.label description c.position)
  | n + 1, _, orElse p q, c => (run rules verbose n p c).orElse fun _ => run rules verbose n q c
  | n + 1, _, anyOf _ ps, c =>
    .firstOf ⟨c.position, "Empty parser"⟩ (.ofFn fun i => fun _ => run rules verbose n (ps i) c)
  | n + 1, _, many p, c =>
    (Run.foldWhile (run rules verbose n p) (fun vs v => .ok (v :: vs)) [] c).map
      (·.tryMap fun vs => .ok vs.reverse)
  | n + 1, _, chainLeft operand operator, c =>
    (run rules verbose n operand c).andThen fun v d =>
      Run.foldWhile
        (fun d => (run rules verbose n operator d).andThen fun f e =>
          (run rules verbose n operand e).map (·.tryMap fun w => .ok (f, w)))
        (fun v (f, w) => f v w) v d
  | n + 1, _, trace name shown p, c =>
    let r := run rules verbose n p c
    if verbose then r.traced name shown c.position else r
  | n + 1, _, delay note p, c => (run rules verbose n p c).after [.built note]
  | n + 1, _, ref r, c => run rules verbose n (rules _ r) c

end Parser
end Descent
