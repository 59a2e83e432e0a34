import Descent.Json

/-!
# Writing JSON

`Json.render` writes a value over several lines, four spaces to a level, in ASCII: other characters
are escaped as UTF-16 units. An empty array or object stands on one line.
-/

namespace Descent
namespace Json

/-- The escape of one UTF-16 unit. -/
def escapeUnit (n : Nat) : Text := "\\u" ++ Text.ofHex 4 n

def escapeChar (c : CodePoint) : Text :=
  if c = '"' then "\\\""
  else if c = '\\' then "\\\\"
  else if c = '\n' then "\\n"
  else if c = '\r' then "\\r"
  else if c = '\t' then "\\t"
  else if c = '\x0c' then "\\f"
  else if c = '\x08' then "\\b"
  else if 0x20 ≤ c.val ∧ c.val < 0x7f then [c]
  else if c.val < 0x10000 then escapeUnit c.val
  else
    let offset := c.val - 0x10000
    escapeUnit (0xD800 + offset / 0x400) ++ escapeUnit (0xDC00 + offset % 0x400)

def renderString (s : Text) : Text :=
  let inner : Text := s.flatMap escapeChar
  "\"" ++ inner ++ "\""

def renderNumber : Number → Text
  | .int i => Text.ofInt i
  | .float x =>
    if x.IsFinite then x.toText
    else if x.isNaN then "NaN"
    else if x.negative then "-Infinity" else "Infinity"

/-- The start of a line at a level of nesting. -/
def newline (level : Nat) : Text := '\n' :: List.replicate (4 * level) ' '

mutual

/-- Writes a value whose first line is already indented for `level`. -/
def renderAt (level : Nat) : Json → Text
  | null => "null"
  | bool true => "true"
  | bool false => "false"
  | number n => renderNumber n
  | string s => renderString s
  | array [] => "[]"
  | array (v :: vs) => "[" ++ renderItems (level + 1) (v :: vs) ++ newline level ++ "]"
  | object [] => "\x7b\x7d"
  | object (m :: ms) => "\x7b" ++ renderMembers (level + 1) (m :: ms) ++ newline level ++ "\x7d"

def renderItems (level : Nat) : List Json → Text
  | [] => []
  | [v] => newline level ++ renderAt level v
  | v :: vs => newline level ++ renderAt level v ++ "," ++ renderItems level vs

def renderMembers (level : Nat) : List (Text × Json) → Text
  | [] => []
  | [(k, v)] => newline level ++ renderString k ++ ": " ++ renderAt level v
  | (k, v) :: ms =>
    newline level ++ renderString k ++ ": " ++ renderAt level v ++ "," ++ renderMembers level ms

end

def render (v : Json) : Text := renderAt 0 v

end Json
end Descent
