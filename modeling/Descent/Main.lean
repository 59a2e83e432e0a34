import Descent.Demo

/-!
# The command line

    descent json [TEXT]     lays out a JSON text, the standard input if none is given
    descent arithmetic      prints a table of sample expressions
-/

namespace Descent

/-- Prints a text, with a question mark for every surrogate. -/
def printText (t : Text) : IO Unit := do
  IO.print (String.ofList (t.map fun c => c.toChar?.getD '?'))

def report : Except Abort Text → IO UInt32
  | .ok t => do
    printText t
    return 0
  | .error (.fault fault) => do
    IO.eprintln (String.ofList (fault.message.map fun c => c.toChar?.getD '?'))
    return 1
  | .error _ => do
    IO.eprintln "nested too deeply"
    return 1

end Descent

open Descent in
def main : List String → IO UInt32
  | ["json"] => do
    let input ← (← IO.getStdin).readToEnd
    report (Demo.json none input)
  | "json" :: text :: _ => report (Demo.json (some text) [])
  | ["arithmetic"] => report Demo.arithmetic
  | _ => do
    IO.eprintln "usage: descent json [TEXT] | descent arithmetic"
    return 2
