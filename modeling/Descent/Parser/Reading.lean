import Descent.Parser.Literal
import Descent.Text.Quoted

/-!
# Reading whole texts

`Parser.parse` runs a parser at a cursor with the depth that `nestingLimit` grants. `runText` and
`readText` start in front of a text and turn nesting beyond the limit into a failure there;
`readText` can also demand that the whole text is consumed.
-/

namespace Descent

/-- How deep parsers may be nested. -/
def nestingLimit : Nat := 1000

/-- Why a text was not read. -/
inductive Rejection where
  | failure (f : Failure)
  | abort (a : Abort)
deriving DecidableEq

namespace Parser

variable {ρ : Type → Type} {α : Type} (rules : Rules ρ) (verbose : Bool)

def parse (p : Parser ρ α) (c : Cursor) : Run α := p.run rules verbose nestingLimit c

/-- An event that is recorded only if `verbose` is set. -/
def logged (e : Event) : List Event := if verbose then [e] else []

/-- Like `parse`, but nesting beyond the limit is a failure at the start, wherever it occurs. -/
def attempt (p : Parser ρ α) (c : Cursor) : Run α :=
  let r := p.parse rules verbose c
  match r.result with
  | .abort a =>
    if a.isNesting then
      ⟨.failure ⟨c.position, "Input nested too deeply"⟩,
        r.events ++ logged verbose (.cutOff c.position)⟩
    else r
  | _ => r

/-- Parses the front of a text, with the value or the failure as an answer. -/
def runText (p : Parser ρ α) (text name : Text) :
    Recorded (Except Abort (Except Failure α)) :=
  (p.attempt rules verbose (.start text name)).map fun
    | .success v _ => .ok (.ok v)
    | .failure f => .ok (.error f)
    | .abort a => .error a

/-- What a reading of a text is called in logs: its name, or else how it begins. -/
def subject (text name : Text) : Text :=
  Text.quoted (if name = [] then text.take 30 else name)

/-- Parses a text for its value. With `consumeAll` it is a failure to leave characters unread. -/
def readText (p : Parser ρ α) (text name : Text) (consumeAll : Bool) :
    Recorded (Except Rejection α) :=
  let r := p.attempt rules verbose (.start text name)
  let reject (f : Failure) : Recorded (Except Rejection α) :=
    ⟨.error (.failure f), r.events ++ logged verbose (.rejected (subject text name) f)⟩
  match r.result with
  | .success v c =>
    if consumeAll ∧ ¬ c.AtEnd then
      match c.current with
      | .ok x => reject ⟨c.position, "Expected end of input, but got " ++ [x]⟩
      | .error e => ⟨.error (.abort (.fault e)), r.events⟩
    else ⟨.ok v, r.events⟩
  | .failure f => reject f
  | .abort a => ⟨.error (.abort a), r.events⟩

end Parser
end Descent
