import Descent.Text.DecimalDigit

/-!
# Integers as people write them

`Numeral.ofLiberal` reads an integer more liberally than `Numeral.toInt`: blanks may stand around
it, digits may be of any script, and single underscores may part them.
-/

namespace Descent

/-- Blanks, of which ASCII has the space and the five controls from the tab to the carriage
return. -/
def CodePoint.isBlank (c : CodePoint) : Bool :=
  c = ' ' || (9 ≤ c.val && c.val ≤ 13) || (0x2000 ≤ c.val && c.val ≤ 0x200A) ||
    [0x85, 0xA0, 0x1680, 0x2028, 0x2029, 0x202F, 0x205F, 0x3000].contains c.val

namespace Numeral

def trim (t : Text) : Text :=
  ((t.dropWhile CodePoint.isBlank).reverse.dropWhile CodePoint.isBlank).reverse

/-- Writes the decimal digits of all scripts as ASCII digits. -/
def toAscii (t : Text) : Text := t.map fun c => c.asciiDigit?.getD c

/-- Removes every underscore that stands between two digits. -/
def ungroup : Text → Text
  | c :: d :: e :: t =>
    if c.IsDigit ∧ d = '_' ∧ e.IsDigit then c :: ungroup (e :: t) else c :: ungroup (d :: e :: t)
  | t => t

def ofLiberal (t : Text) : Except Fault Int := toInt (ungroup (toAscii (trim t)))

end Numeral
end Descent
