import Descent.Text

/-!
# Positions

A `Position` is the line and column of the next character of a named text. Only a line feed starts
a new line; every other character moves one column on. Counting starts at one in front of a text,
and a part of a larger text may start at any line and column.
-/

namespace Descent

structure Position where
  line : Int
  column : Int
  name : Text
deriving DecidableEq

namespace Position

/-- The position of the first character of a text. -/
def start (name : Text) : Position := ⟨1, 1, name⟩

def update (p : Position) (c : CodePoint) : Position :=
  if c = '\n' then ⟨p.line + 1, 1, p.name⟩ else ⟨p.line, p.column + 1, p.name⟩

/-- The position behind a text that starts at `p`. -/
def updateAll (p : Position) (t : Text) : Position := t.foldl update p

def toText (p : Position) : Text :=
  let place : Text := "line " ++ Text.ofInt p.line ++ ", column " ++ Text.ofInt p.column
  if p.name = [] then place else p.name ++ " " ++ place

variable (p : Position)

@[simp] theorem updateAll_nil : p.updateAll [] = p := rfl

@[simp] theorem updateAll_cons (c : CodePoint) (t : Text) :
    p.updateAll (c :: t) = (p.update c).updateAll t := rfl

theorem updateAll_append (s t : Text) :
    p.updateAll (s ++ t) = (p.updateAll s).updateAll t := List.foldl_append

@[simp] theorem name_update (c : CodePoint) : (p.update c).name = p.name := by
  unfold update; split <;> rfl

end Position
end Descent
