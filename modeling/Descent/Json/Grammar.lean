import Descent.Json
import Descent.Parser.Literal

/-!
# The grammar of JSON

    value   = ws ( null | bool | string | number | array | object ) ws
    string  = '"' ( valid | '\' escape )* '"'
    escape  = '"' | '\' | '/' | 'b' | 'f' | 'n' | 'r' | 't' | 'u' hex hex hex hex
    number  = '-'? ( '0' | [1-9] [0-9]* ) ( '.' [0-9]+ )? ( [eE] [+-]? [0-9]+ )?
    array   = '[' ( value ( ',' value )* | ws ) ']'
    object  = '{' ( member ( ',' member )* | ws ) '}'
    member  = ws string ws ':' value

Every parser of a nested value takes the reference `self` that stands for `element`, so that the
grammar can be part of a larger one. `Json.rules` closes it.
-/

namespace Descent

/-- The value of a hexadecimal digit of either case. -/
def CodePoint.hexValue (c : CodePoint) : Fin 16 :=
  if c.IsDigit then Fin.ofNat 16 (c.val - 48) else Fin.ofNat 16 (c.val % 32 + 9)

/-- The code point that four hexadecimal digits denote. -/
def CodePoint.ofHex (a b c d : CodePoint) : CodePoint :=
  ⟨((a.hexValue.val * 16 + b.hexValue.val) * 16 + c.hexValue.val) * 16 + d.hexValue.val, by
    have := a.hexValue.isLt; have := b.hexValue.isLt
    have := c.hexValue.isLt; have := d.hexValue.isLt
    omega⟩

namespace Json

inductive Rule : Type → Type where
  | element : Rule Json

namespace Grammar

open Descent.Parser

variable {ρ : Type → Type}

/-! ### Literals -/

def nullLiteral : Parser ρ Json := (Parser.string "null").map fun _ => .null

def boolLiteral : Parser ρ Json :=
  ((Parser.string "true").map fun _ => .bool true).orElse
    ((Parser.string "false").map fun _ => .bool false)

/-! ### Strings -/

def validChar : Parser ρ CodePoint :=
  satisfy (fun c => 0x20 ≤ c.val ∧ c ≠ '"' ∧ c ≠ '\\') "a valid character"

def hexQuad : Parser ρ CodePoint :=
  hexDigit.bind fun a => hexDigit.bind fun b => hexDigit.bind fun c => hexDigit.map fun d =>
    .ofHex a b c d

/-- What an escaped code point stands for: a high surrogate joins with an escaped low surrogate
that follows at once. -/
def pairWith (unit : CodePoint) : Parser ρ CodePoint :=
  if unit.IsHighSurrogate then
    let low := ((Parser.string "\\u").keepRight hexQuad).filter
      (fun c => .ok (decide c.IsLowSurrogate)) (fun c => .ok (Text.ofNat c.val)) "a low surrogate"
    (low.map fun c => .ofSurrogates unit c).orElse (.pure unit)
  else .pure unit

def unicodeEscape : Parser ρ CodePoint := (char 'u').keepRight (hexQuad.bind pairWith)

/-- The letters of the simple escapes and the characters they stand for. -/
def simpleEscapes : List (CodePoint × CodePoint) :=
  [('"', '"'), ('\\', '\\'), ('/', '/'), ('b', '\x08'), ('f', '\x0c'), ('n', '\n'), ('r', '\r'),
    ('t', '\t')]

def simpleEscape : Parser ρ CodePoint :=
  firstOf (simpleEscapes.map fun (letter, c) => (char letter).map fun _ => c)

def escapedChar : Parser ρ CodePoint := (char '\\').keepRight (unicodeEscape.orElse simpleEscape)

def stringLiteral : Parser ρ Text :=
  between (char '"') (char '"') (validChar.orElse escapedChar).many

/-! ### Numbers -/

def nonZero : Parser ρ CodePoint :=
  digit.filter (fun c => .ok (decide (c ≠ '0'))) (fun c => .ok [c]) "a non-zero digit"

def integerPart : Parser ρ Text :=
  ((char '0').map fun c => [c]).orElse (nonZero.bind fun c => digit.many.map fun cs => c :: cs)

def fraction : Parser ρ Text := (char '.').keepRight (digits.map fun ds => '.' :: ds)

/-- An exponent with its sign, if it has one, behind a lower-case mark. -/
def exponent : Parser ρ Text :=
  ((char 'e').orElse (char 'E')).keepRight
    ((firstOf [(char '+').map fun c => [c], (char '-').map fun c => [c], .pure []]).bind fun sign =>
      digits.map fun ds => 'e' :: (sign ++ ds))

def numberOf (sign integer fraction exponent : Text) : Except Fault Number :=
  if fraction = [] ∧ exponent = [] then Number.ofInteger (sign ++ integer)
  else Number.ofDecimal (sign ++ integer ++ fraction ++ exponent)

def numberLiteral : Parser ρ Number :=
  (option [] ((char '-').map fun c => [c])).bind fun sign =>
    integerPart.bind fun integer =>
      (option [] fraction).bind fun frac =>
        (option [] exponent).tryMap fun exp => numberOf sign integer frac exp

/-! ### Nested values -/

variable (self : ρ Json)

def array : Parser ρ (List Json) :=
  between (char '[') (char ']')
    (((Parser.ref self).sepBySome (char ',')).orElse (whitespaces.map fun _ => []))

def member : Parser ρ (Text × Json) :=
  (between whitespaces whitespaces stringLiteral).bind fun key =>
    (char ':').keepRight ((Parser.ref self).map fun v => (key, v))

def object : Parser ρ (Dictionary Json) :=
  (between (char '{') (char '}')
    (((member self).sepBySome (char ',')).orElse (whitespaces.map fun _ => []))).map .ofEntries

def value : Parser ρ Json :=
  firstOf [nullLiteral, boolLiteral, stringLiteral.map .string, numberLiteral.map .number,
    (array self).map .array, (object self).map .object]

/-- A value with whitespace on both sides. -/
def element : Parser ρ Json := between whitespaces whitespaces (value self)

end Grammar

def rules : Rules Rule
  | _, .element => Grammar.element .element

/-- The grammar as a whole. -/
def parser : Parser Rule Json := Grammar.element .element

end Json
end Descent
