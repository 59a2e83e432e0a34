import Descent.Json.Grammar
import Descent.Proofs.Dictionary
import Descent.Proofs.Numeral
import Descent.Proofs.Recognition

/-!
# The language of JSON

The grammar of JSON as relations between texts and values, apart from any parser. `IsElement s v`:
`s` is a value with whitespace on both sides, and `v` is what it denotes.

A string literal is a sequence of units, each a character or an escape. `decode` gives its
characters, and joins an escaped high surrogate with an escaped low one right behind it. An object
collects its members: a repeated key keeps its first place and takes its last value.
-/

namespace Descent

abbrev CodePoint.IsHex (c : CodePoint) : Prop := c.IsDigit ∨ c ∈ ("abcdefABCDEF" : Text)

namespace Json

open Descent.Parser (AreDigits AreBlank SepBy)

/-! ### Numbers -/

/-- Digits without a zero in front, or zero. -/
inductive IsInteger : Text → Prop where
  | zero : IsInteger ['0']
  | nonZero {d : CodePoint} {ds : Text} (hd : d.IsDigit) (hne : d ≠ '0') (hds : AreDigits ds) :
      IsInteger (d :: ds)

inductive IsMinus : Text → Bool → Prop where
  | none : IsMinus [] false
  | minus : IsMinus ['-'] true

/-- The number of a literal, an integer if it has neither a fraction nor an exponent. -/
def numberValue (negative : Bool) (integer fraction exponent digits : Text) (x : Int) : Number :=
  if fraction = [] ∧ exponent = [] then
    .int (if negative then -(Numeral.toNat integer : Int) else Numeral.toNat integer)
  else .float (.ofDecimal ⟨negative, Numeral.toNat (integer ++ digits), x - digits.length⟩)

inductive IsNumber : Text → Number → Prop where
  | intro {sg ds f fs e : Text} {negative : Bool} {x : Int} (hsg : IsMinus sg negative)
      (hds : IsInteger ds) (hf : IsFraction f fs) (he : IsExponent e x) :
      IsNumber (sg ++ (ds ++ (f ++ e))) (numberValue negative ds f e fs x)

/-! ### Strings -/

inductive StringUnit where
  | plain (c : CodePoint)
  | escape (letter c : CodePoint)
  | unicode (a b c d : CodePoint)

namespace StringUnit

def Valid : StringUnit → Prop
  | plain c => 0x20 ≤ c.val ∧ c ≠ '"' ∧ c ≠ '\\'
  | escape letter c => (letter, c) ∈ Grammar.simpleEscapes
  | unicode a b c d => a.IsHex ∧ b.IsHex ∧ c.IsHex ∧ d.IsHex

def spell : StringUnit → Text
  | plain c => [c]
  | escape letter _ => ['\\', letter]
  | unicode a b c d => ['\\', 'u', a, b, c, d]

/-- What a unit stands for on its own. -/
def code : StringUnit → CodePoint
  | plain c => c
  | escape _ c => c
  | unicode a b c d => .ofHex a b c d

/-- Two units that stand for one character together. -/
def pairs : StringUnit → StringUnit → Bool
  | unicode a b c d, unicode a' b' c' d' =>
    (CodePoint.ofHex a b c d).IsHighSurrogate ∧ (CodePoint.ofHex a' b' c' d').IsLowSurrogate
  | _, _ => false

end StringUnit

/-- The characters that units stand for. -/
def decode : List StringUnit → Text
  | [] => []
  | [u] => [u.code]
  | u :: w :: us =>
    if u.pairs w then .ofSurrogates u.code w.code :: decode us else u.code :: decode (w :: us)

inductive IsString : Text → Text → Prop where
  | intro {us : List StringUnit} (h : ∀ u ∈ us, u.Valid) :
      IsString ('"' :: (us.flatMap (·.spell) ++ [('"' : CodePoint)])) (decode us)

/-! ### Values -/

/-- Words of `L` with commas between them, or whitespace, in brackets. -/
inductive Bracketed {α : Type} (L : Text → α → Prop) (opening closing : CodePoint) :
    Text → List α → Prop where
  | blank {w : Text} (hw : AreBlank w) : Bracketed L opening closing (opening :: (w ++ [closing])) []
  | items {s : Text} {vs : List α} (h : SepBy L ',' s vs) :
      Bracketed L opening closing (opening :: (s ++ [closing])) vs

mutual

/-- A value with whitespace on both sides. -/
inductive IsElement : Text → Json → Prop where
  | intro {w₁ s w₂ : Text} {v : Json} (hw₁ : AreBlank w₁) (hv : IsValue s v) (hw₂ : AreBlank w₂) :
      IsElement (w₁ ++ (s ++ w₂)) v

inductive IsValue : Text → Json → Prop where
  | null : IsValue "null" .null
  | true : IsValue "true" (.bool Bool.true)
  | false : IsValue "false" (.bool Bool.false)
  | string {s x : Text} (h : IsString s x) : IsValue s (.string x)
  | number {s : Text} {n : Number} (h : IsNumber s n) : IsValue s (.number n)
  | array {s : Text} {vs : List Json} (h : Bracketed IsElement '[' ']' s vs) :
      IsValue s (.array vs)
  | object {s : Text} {es : List (Text × Json)} {d : Dictionary Json}
      (h : Bracketed IsMember '{' '}' s es) (hd : Dictionary.Collects es d) : IsValue s (.object d)

/-- A key with whitespace on both sides, a colon and a value. -/
inductive IsMember : Text → Text × Json → Prop where
  | intro {w₁ k w₂ s key : Text} {v : Json} (hw₁ : AreBlank w₁) (hk : IsString k key)
      (hw₂ : AreBlank w₂) (h : IsElement s v) :
      IsMember (w₁ ++ (k ++ w₂) ++ (':' : CodePoint) :: s) (key, v)

end

/-! ### First characters -/

theorem IsInteger.areDigits {ds : Text} (h : IsInteger ds) : ds ≠ [] ∧ AreDigits ds := by
  cases h with
  | zero => exact ⟨List.cons_ne_nil _ _, by simp [AreDigits]; decide⟩
  | nonZero hd hne hds => exact ⟨List.cons_ne_nil _ _, List.forall_mem_cons.2 ⟨hd, hds⟩⟩

theorem IsNumber.head {s : Text} {n : Number} (h : IsNumber s n) :
    ∃ c u, s = c :: u ∧ (c = '-' ∨ c.IsDigit) := by
  rcases h with ⟨hsg, hds, hf, he⟩
  cases hsg with
  | minus => exact ⟨_, _, rfl, .inl rfl⟩
  | none =>
    cases hds with
    | zero => exact ⟨_, _, rfl, .inr (by decide)⟩
    | nonZero hd => exact ⟨_, _, rfl, .inr hd⟩

end Json
end Descent
