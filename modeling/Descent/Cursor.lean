import Descent.Fault
import Descent.Position

/-!
# Cursors

A `Cursor` is a place in a text: how many characters are consumed, and the position of the next
one. What a parser can see of it is `unread`, the rest of the text; `advance` takes the first
character off. A cursor may stand beyond the end of its text, where nothing is left to read.
-/

namespace Descent

structure Cursor where
  text : Array CodePoint
  offset : Nat
  position : Position
deriving DecidableEq

namespace Cursor

/-- The cursor in front of a text. -/
def start (text name : Text) : Cursor := ⟨text.toArray, 0, .start name⟩

def unread (c : Cursor) : Text := c.text.toList.drop c.offset

def unreadCount (c : Cursor) : Nat := c.text.size - c.offset

abbrev AtEnd (c : Cursor) : Prop := c.text.size ≤ c.offset

def current (c : Cursor) : Except Fault CodePoint :=
  match c.text[c.offset]? with
  | some x => .ok x
  | none => .error .endOfText

def advance (c : Cursor) : Except Fault Cursor := do
  let x ← c.current
  return ⟨c.text, c.offset + 1, c.position.update x⟩

variable (c : Cursor)

theorem length_unread : c.unread.length = c.unreadCount := by
  simp [unread, unreadCount]

theorem atEnd_iff_unread_eq_nil : c.AtEnd ↔ c.unread = [] := by
  simp [AtEnd, unread, List.drop_eq_nil_iff]

theorem unread_start (text name : Text) : (start text name).unread = text := by
  simp [start, unread]

/-- What `current` and `advance` give, in terms of what is left to read. -/
theorem current_of_unread {x : CodePoint} {t : Text} (h : c.unread = x :: t) :
    c.current = .ok x ∧ c.advance = .ok ⟨c.text, c.offset + 1, c.position.update x⟩ := by
  have hx : c.text[c.offset]? = some x := by
    rw [← Array.getElem?_toList, ← List.head?_drop]
    show c.unread.head? = _
    rw [h]; rfl
  exact ⟨by simp only [current, hx], by simp only [advance, current, hx]; rfl⟩

end Cursor
end Descent
