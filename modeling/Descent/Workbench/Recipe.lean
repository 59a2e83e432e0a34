import Descent.Workbench.Parser

/-!
# Recipes

A `Recipe` is a parser over values written down as data: it can be read from a request, kept and
compared, while a `Parser` holds functions. `Recipe.parser` builds what a recipe describes.
-/

namespace Descent
namespace Workbench

inductive Builtin where
  | anyChar | digit | lower | upper | letter | alphanum | hexDigit | whitespace | whitespaces | eof
  | empty
  | jsonElement | jsonValue | jsonArray | jsonObject | jsonNull | jsonBool | jsonString | jsonNumber
  | jsonValidChar | jsonHexQuad | jsonUnicodeEscape | jsonSimpleEscape | jsonEscapedChar
  | jsonNonZero | jsonIntegerPart | jsonFraction | jsonExponent
  | expr | term | factor | numeric | plusMinus | mulDiv | digits | realNumeral
deriving DecidableEq

mutual

inductive Recipe where
  | builtin (b : Builtin)
  | char (s : Text)
  | string (s : Text)
  | symbol (s : Text)
  | oneOf (cs : Text)
  | fail (message : Text)
  | pure (v : Value)
  | satisfy (t : Test) (description : Text)
  | filter (t : Test) (description : Text) (p : Recipe)
  | label (description : Text) (p : Recipe)
  | map (f : Function) (p : Recipe)
  | apply (p pf : Recipe)
  | bind (p : Recipe) (k : Continuation)
  | orElse (p q : Recipe)
  | keepRight (p q : Recipe)
  | keepLeft (p q : Recipe)
  | both (p q : Recipe)
  | firstOf (ps : List Recipe)
  /-- A choice of delayed parsers, each with its note. -/
  | lazyFirstOf (ps : List (Text × Recipe))
  | delay (note : Text) (p : Recipe)
  | ref (name : Text)
  | many (p : Recipe)
  | some (p : Recipe)
  | token (p : Recipe)
  | sepBy (p separator : Recipe)
  | sepBySome (p separator : Recipe)
  | chainLeft (p operator : Recipe)
  | between (opening closing p : Recipe)
  | option (default : Value) (p : Recipe)
  | trace (name : Text) (p : Recipe)
  | operator (s : Text)

/-- What to parse next, given a value. -/
inductive Continuation where
  | pure (f : Function)
  | always (p : Recipe)
  | pairWith (p : Recipe)
  | char
  | literal
  | fail (message : Text)
  | throw (fault : Fault)
  | switch (cases : List (Value × Recipe)) (default : Recipe)
  | count (p : Recipe)

end

def Builtin.parser : Builtin → ValueParser
  | anyChar => .ofChar .anyChar
  | digit => .ofChar .digit
  | lower => .ofChar .lower
  | upper => .ofChar .upper
  | letter => .ofChar .letter
  | alphanum => .ofChar .alphanum
  | hexDigit => .ofChar .hexDigit
  | whitespace => .ofChar .whitespace
  | whitespaces => .ofChars .whitespaces
  | eof => ValueParser.eof
  | empty => Parser.empty
  | jsonElement => .ofJson (Json.Grammar.element .json)
  | jsonValue => .ofJson (Json.Grammar.value .json)
  | jsonArray => .ofJson ((Json.Grammar.array .json).map .array)
  | jsonObject => .ofJson ((Json.Grammar.object .json).map .object)
  | jsonNull => .ofJson Json.Grammar.nullLiteral
  | jsonBool => .ofJson Json.Grammar.boolLiteral
  | jsonString => .ofText Json.Grammar.stringLiteral
  | jsonNumber => Json.Grammar.numberLiteral.map .number
  | jsonValidChar => .ofChar Json.Grammar.validChar
  | jsonHexQuad => Json.Grammar.hexQuad.map fun c => .int c.val
  | jsonUnicodeEscape => .ofChar Json.Grammar.unicodeEscape
  | jsonSimpleEscape => .ofChar Json.Grammar.simpleEscape
  | jsonEscapedChar => .ofChar Json.Grammar.escapedChar
  | jsonNonZero => .ofChar Json.Grammar.nonZero
  | jsonIntegerPart => .ofText Json.Grammar.integerPart
  | jsonFraction => .ofText Json.Grammar.fraction
  | jsonExponent => .ofText Json.Grammar.exponent
  | expr => .ofExpr (Arith.Grammar.expr .expr)
  | term => .ofExpr (Arith.Grammar.term .expr)
  | factor => .ofExpr (Arith.Grammar.factor .expr)
  | numeric => .ofExpr (Arith.Grammar.number.map .number)
  | plusMinus => .ofOperator Arith.Grammar.plusMinus
  | mulDiv => .ofOperator Arith.Grammar.mulDiv
  | digits => .ofText .digits
  | realNumeral => .ofText Arith.Grammar.realNumeral

mutual

def Recipe.parser : Recipe → ValueParser
  | .builtin b => b.parser
  | .char s => .ofChar (ValueParser.charOf (.text s))
  | .string s => .ofText (.string s)
  | .symbol s => .ofText (.symbol s)
  | .oneOf cs => .ofChar (.oneOf cs)
  | .fail message => .fail message
  | .pure v => .pure v
  | .satisfy t description => .satisfy t description
  | .filter t description p => .filter t description p.parser
  | .label description p => .label description p.parser
  | .map f p => .tryMap f.call p.parser
  | .apply p pf => .apply p.parser pf.parser
  | .bind p k => .bind p.parser k.parser
  | .orElse p q => .orElse p.parser q.parser
  | .keepRight p q => .keepRight p.parser q.parser
  | .keepLeft p q => .keepLeft p.parser q.parser
  | .both p q => .both p.parser q.parser
  | .firstOf ps => .firstOf (Recipe.parsers ps)
  | .lazyFirstOf ps => .lazyFirstOf (Recipe.notedParsers ps)
  | .delay note p => .delay note p.parser
  | .ref name => .ref (.named name)
  | .many p => .many p.parser
  | .some p => .some p.parser
  | .token p => .token p.parser
  | .sepBy p separator => .sepBy p.parser separator.parser
  | .sepBySome p separator => .sepBySome p.parser separator.parser
  | .chainLeft p operator => .chainLeft p.parser operator.parser
  | .between opening closing p => .between opening.parser closing.parser p.parser
  | .option default p => .option default p.parser
  | .trace name p => .trace name p.parser
  | .operator s => .ofOperator (.symbol s)

def Recipe.parsers : List Recipe → List ValueParser
  | [] => []
  | p :: ps => p.parser :: Recipe.parsers ps

def Recipe.notedParsers : List (Text × Recipe) → List (Text × ValueParser)
  | [] => []
  | (note, p) :: ps => (note, p.parser) :: Recipe.notedParsers ps

def Continuation.parser : Continuation → Value → ValueParser
  | .pure f => ValueParser.pureCall f
  | .always p => fun _ => p.parser
  | .pairWith p => ValueParser.pairWith p.parser
  | .char => fun v => .ofChar (ValueParser.charOf v)
  | .literal => ValueParser.literalOf
  | .fail message => ValueParser.failWith message
  | .throw fault => fun _ => .throw fault
  | .switch cases default => ValueParser.switch (Continuation.caseParsers cases) default.parser
  | .count p => ValueParser.count p.parser

def Continuation.caseParsers : List (Value × Recipe) → List (Value × ValueParser)
  | [] => []
  | (v, p) :: cases => (v, p.parser) :: Continuation.caseParsers cases

end

/-- The rules that definitions give to the names in a recipe. -/
def Recipe.rules (definitions : List (Text × Recipe)) : Rules Rule :=
  Workbench.rules (Recipe.notedParsers definitions)

end Workbench
end Descent
