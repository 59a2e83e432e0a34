import Descent.Arith
import Descent.Json
import Descent.Parser.Reading

/-!
# Values of the workbench

The workbench tries parsers that are put together at run time, so that the type of a value is known
only then. A `Value` is a JSON value, a tuple, an expression or a function; functions are named or
described, so that they can be compared and shown like all else. `shown` is how messages word a
value, `quoted` how logs do: they differ on texts alone. A value that holds an integer with too many
digits, or that is nested too deeply, cannot be shown.
-/

namespace Descent
namespace Workbench

inductive Function2 where
  | add | sub | mul | div | pair | left | right
deriving DecidableEq

mutual

inductive Value where
  | none
  | bool (b : Bool)
  | number (n : Number)
  | text (s : Text)
  | list (items : List Value)
  | tuple (items : List Value)
  | dictionary (entries : List (Text × Value))
  /-- An expression that is a number. -/
  | leaf (v : Value)
  | binary (operator : Text) (left right : Value)
  | function (f : Function)
  | function2 (f : Function2)
  /-- The function that joins two operands to an expression. -/
  | builder (operator : Text)

inductive Function where
  | const (v : Value)
  | throw (fault : Fault)
  /-- Pairs its argument with a text. -/
  | tag (s : Text)
  | suffix (s : Text)
  | plus (n : Int)
  | id | toInt | length | join | wrap | head | reverse | shown | evaluate

end

namespace Function2

def name : Function2 → Text
  | add => "add"
  | sub => "sub"
  | mul => "mul"
  | div => "div"
  | pair => "pair"
  | left => "left"
  | right => "right"

end Function2

namespace Function

def name : Function → Text
  | const _ => "const"
  | throw _ => "raise"
  | tag _ => "tag"
  | suffix _ => "suffix"
  | plus _ => "plus"
  | id => "id"
  | toInt => "int"
  | length => "len"
  | join => "join"
  | wrap => "wrap"
  | head => "head"
  | reverse => "reverse"
  | shown => "str"
  | evaluate => "evaluate"

end Function

namespace Value

instance : Inhabited Value := ⟨.none⟩

def int (i : Int) : Value := number (.int i)

mutual

def quotedInFull : Value → Except Fault Text
  | none => .ok "None"
  | bool true => .ok "True"
  | bool false => .ok "False"
  | number n => n.toText
  | text s => .ok (Text.quoted s)
  | list vs => do return "[" ++ Text.joinWith ", " (← quotedItems vs) ++ "]"
  | tuple [v] => do return "(" ++ (← v.quotedInFull) ++ ",)"
  | tuple vs => do return "(" ++ Text.joinWith ", " (← quotedItems vs) ++ ")"
  | dictionary entries => do
    return "\x7b" ++ Text.joinWith ", " (← quotedEntries entries) ++ "\x7d"
  | leaf v => do return "Number(value=" ++ (← v.quotedInFull) ++ ")"
  | binary operator l r => do
    return "BinaryExpression(operator=" ++ Text.quoted operator ++ ", left=" ++
      (← l.quotedInFull) ++ ", right=" ++ (← r.quotedInFull) ++ ")"
  | function f => .ok ("<fn " ++ f.name ++ ">")
  | function2 f => .ok ("<fn " ++ f.name ++ ">")
  | builder operator => .ok ("<fn " ++ operator ++ ">")

def quotedItems : List Value → Except Fault (List Text)
  | [] => .ok []
  | v :: vs => do return (← v.quotedInFull) :: (← quotedItems vs)

def quotedEntries : List (Text × Value) → Except Fault (List Text)
  | [] => .ok []
  | (k, v) :: es => do return (Text.quoted k ++ ": " ++ (← v.quotedInFull)) :: (← quotedEntries es)

end

mutual

/-- The levels that showing a value goes down: one for a sequence or a dictionary, three for an
expression with its fields. -/
def levels : Value → Nat
  | list vs | tuple vs => itemLevels vs + 1
  | dictionary es => entryLevels es + 1
  | leaf v => v.levels + 3
  | binary _ l r => max l.levels r.levels + 3
  | _ => 1

def itemLevels : List Value → Nat
  | [] => 0
  | v :: vs => max v.levels (itemLevels vs)

def entryLevels : List (Text × Value) → Nat
  | [] => 0
  | (_, v) :: es => max v.levels (entryLevels es)

end

/-- The quoted form, when it does not go down too deep. -/
def quoted (v : Value) : Except Fault Text :=
  if nestingLimit < v.levels then .error .tooDeep else v.quotedInFull

def shown : Value → Except Fault Text
  | text s => .ok s
  | v => v.quoted

/-- The number that a value counts as: truth values count as one and zero. -/
def toNumber? : Value → Option Number
  | bool b => some (.int (if b then 1 else 0))
  | number n => some n
  | _ => .none

mutual

def ofJson : Json → Value
  | .null => none
  | .bool b => bool b
  | .number n => number n
  | .string s => text s
  | .array vs => list (ofJsonItems vs)
  | .object ms => dictionary (ofJsonMembers ms)

def ofJsonItems : List Json → List Value
  | [] => []
  | v :: vs => ofJson v :: ofJsonItems vs

def ofJsonMembers : List (Text × Json) → List (Text × Value)
  | [] => []
  | (k, v) :: ms => (k, ofJson v) :: ofJsonMembers ms

end

def ofExpr : Expr → Value
  | .number n => leaf (number n)
  | .binary operator l r => binary operator (ofExpr l) (ofExpr r)

mutual

/-- Equality of value. Numbers compare across their kinds, and a function with parameters equals no
function. -/
def same : Value → Value → Bool
  | none, none => true
  | text s, text t => s = t
  | list vs, list ws => sameItems vs ws
  | tuple vs, tuple ws => sameItems vs ws
  | dictionary es, dictionary fs => es.length = fs.length && sameEntries es fs
  | leaf v, leaf w => v.same w
  | binary o l r, binary o' l' r' => o = o' && l.same l' && r.same r'
  | function2 f, function2 g => f = g
  | v, w => match v.toNumber?, w.toNumber? with
    | some m, some n => m.same n
    | _, _ => false

def sameItems : List Value → List Value → Bool
  | [], [] => true
  | v :: vs, w :: ws => v.same w && sameItems vs ws
  | _, _ => false

/-- Whether every entry of the first dictionary has its like in the second. -/
def sameEntries : List (Text × Value) → List (Text × Value) → Bool
  | [], _ => true
  | (k, v) :: es, fs =>
    (match fs.lookup k with
      | some w => v.same w
      | .none => false) && sameEntries es fs

end

end Value
end Workbench
end Descent
