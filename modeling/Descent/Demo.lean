import Descent.Arith.Grammar
import Descent.Json.Grammar
import Descent.Json.Render
import Descent.Parser.Reading

/-!
# Demonstrations

What the command line prints: a JSON text laid out anew, and a table of sample expressions with
their values.
-/

namespace Descent
namespace Demo

def line (t : Text) : Text := t ++ "\n"

/-- Parses the front of a JSON text, from an argument if there is one, and writes its value. -/
def json (argument : Option Text) (input : Text) : Except Abort Text :=
  let (text, name) : Text × Text := match argument with
    | some text => (text, "<argv>")
    | none => (input, "<stdin>")
  (Json.parser.runText Json.rules false text name).result.map fun
    | .ok v => line "Successfully Parsed:" ++ line v.render
    | .error f => line ("Parsing Failed: " ++ f.toText)

def samples : List Text :=
  ["2 + 3", "2 * 3", "2 + 3 * 4", "(2 + 3) * 4", "4 - 2 + 3", "10 / 4", "10 / (2 - 2)"]

/-- The value of an expression, or why it has none. -/
def valueOf (text : Text) : Except Abort Text :=
  (Arith.parser.runText Arith.rules false text []).result.map fun
    | .ok e => match e.evaluate >>= Number.toText with
      | .ok t => t
      | .error fault => "Runtime Error: " ++ fault.message
    | .error f => "Error: " ++ f.toText

def row (left right : Text) : Text := line (left.padRight 20 ++ " | " ++ right)

def arithmetic : Except Abort Text := do
  let rows ← samples.mapM fun text => do return row text (← valueOf text)
  return row "Expression" (Text.padRight 10 "Result") ++
    line (List.replicate 35 '-') ++ rows.flatten

end Demo
end Descent
