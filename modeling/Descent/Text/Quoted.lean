import Descent.Text.Printable

/-!
# Quoted text

The form in which logs show a text: between single quotes, or double quotes if it holds a single
quote and no double quote, with backslash escapes for the quote in use, the backslash, line feed,
carriage return, tab and every unprintable code point.
-/

namespace Descent
namespace Text

/-- The quotation mark that needs the fewest escapes, the single one if there is no difference. -/
def quoteFor (t : Text) : CodePoint :=
  if ('\'' : CodePoint) ∈ t ∧ ('"' : CodePoint) ∉ t then '"' else '\''

def escapeQuoted (quote c : CodePoint) : Text :=
  if c = quote ∨ c = '\\' then ['\\', c]
  else if c = '\n' then "\\n"
  else if c = '\r' then "\\r"
  else if c = '\t' then "\\t"
  else if c.isPrintable then [c]
  else if c.val < 0x100 then "\\x" ++ ofHex 2 c.val
  else if c.val < 0x10000 then "\\u" ++ ofHex 4 c.val
  else "\\U" ++ ofHex 8 c.val

def quoted (t : Text) : Text :=
  let quote := quoteFor t
  quote :: t.flatMap (escapeQuoted quote) ++ [quote]

end Text
end Descent
