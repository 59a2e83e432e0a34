import Descent.Dictionary
import Descent.Parser.Reading
import Descent.Workbench.Recipe

/-!
# Sessions

A session moves one cursor through a text: a parse that succeeds moves it, cursors can be kept
under a name and come back later, and a new text can be taken up. A step that ends in a fault
leaves the session as it is.
-/

namespace Descent
namespace Workbench

structure Session where
  current : Cursor
  saved : Dictionary Cursor

inductive Step where
  | parse (p : Recipe)
  /-- Parses without moving. -/
  | peek (p : Recipe)
  | advance
  | atEnd
  | save (key : Text)
  | load (key : Text)
  /-- Takes up a text under the name of the present one. -/
  | input (text : Text)

inductive Report where
  | parsed (outcome : Outcome Value)
  | moved (c : Cursor)
  | atEnd (b : Bool)
  | fault (f : Fault)

namespace Session

def start (text name : Text) : Session := ⟨.start text name, []⟩

/-- Moves to a cursor, if there is one, and reports it. -/
def moveTo (s : Session) : Except Fault Cursor → Session × Recorded Report
  | .ok c => ({ s with current := c }, ⟨.moved c, []⟩)
  | .error e => (s, ⟨.fault e, []⟩)

def step (rules : Rules Rule) (verbose : Bool) (s : Session) : Step → Session × Recorded Report
  | .parse p =>
    let r := p.parser.parse rules verbose s.current
    let s := match r.result with
      | .success _ c => { s with current := c }
      | _ => s
    (s, r.map .parsed)
  | .peek p => (s, (p.parser.parse rules verbose s.current).map .parsed)
  | .advance => s.moveTo s.current.advance
  | .atEnd => (s, ⟨.atEnd (decide s.current.AtEnd), []⟩)
  | .save key => moveTo { s with saved := s.saved.insert key s.current } (.ok s.current)
  | .load key => s.moveTo ((s.saved.lookup key).elim (.error (.unknown key)) .ok)
  | .input text => s.moveTo (.ok (.start text s.current.position.name))

def run (rules : Rules Rule) (verbose : Bool) (s : Session) : List Step → List (Recorded Report)
  | [] => []
  | step :: steps =>
    let (s, report) := s.step rules verbose step
    report :: run rules verbose s steps

end Session
end Workbench
end Descent
