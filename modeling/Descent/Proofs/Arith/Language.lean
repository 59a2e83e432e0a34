import Descent.Arith.Grammar
import Descent.Proofs.Numeral

/-!
# The language of arithmetic

The grammar of arithmetic as relations between texts and trees, apart from any parser. Whitespace
belongs to the token before it. Operators of one level nest to the left: what stands in front of the
last operator of a level is its left operand.
-/

namespace Descent
namespace Arith

open Descent.Parser (AreDigits AreBlank)

/-- Digits, with a point and more digits if the number is no integer. -/
inductive IsNumeral : Text → Number → Prop where
  | integer {ds : Text} (hne : ds ≠ []) (hds : AreDigits ds) :
      IsNumeral ds (.int (Numeral.toNat ds))
  | real {ds fs : Text} (hne : ds ≠ []) (hds : AreDigits ds) (hfne : fs ≠ []) (hfs : AreDigits fs) :
      IsNumeral (ds ++ ('.' : CodePoint) :: fs)
        (.float (.ofDecimal ⟨false, Numeral.toNat (ds ++ fs), -fs.length⟩))

/-- Operands of `L` with operators of one level between them. -/
inductive Chained (L : Text → Expr → Prop) (operators : Text) : Text → Expr → Prop where
  | one {s : Text} {e : Expr} (h : L s e) : Chained L operators s e
  | more {s w u : Text} {c : CodePoint} {l r : Expr} (hl : Chained L operators s l)
      (hc : c ∈ operators) (hw : AreBlank w) (hr : L u r) :
      Chained L operators (s ++ c :: (w ++ u)) (.binary [c] l r)

mutual

inductive IsExpr : Text → Expr → Prop where
  | intro {s : Text} {e : Expr} (h : Chained IsTerm "+-" s e) : IsExpr s e

inductive IsTerm : Text → Expr → Prop where
  | intro {s : Text} {e : Expr} (h : Chained IsFactor "*/" s e) : IsTerm s e

inductive IsFactor : Text → Expr → Prop where
  | number {s w : Text} {n : Number} (h : IsNumeral s n) (hw : AreBlank w) :
      IsFactor (s ++ w) (.number n)
  | group {w s w' : Text} {e : Expr} (hw : AreBlank w) (h : IsExpr s e) (hw' : AreBlank w') :
      IsFactor ('(' :: (w ++ (s ++ (')' : CodePoint) :: w'))) e

end

/-! ### First characters -/

/-- A digit or an opening parenthesis, with which every operand starts. -/
def Opens (s : Text) : Prop := ∃ c r, s = c :: r ∧ (c.IsDigit ∨ c = '(')

theorem Opens.stops {s : Text} (h : Opens s) (u : Text) : Stops (· ∈ Parser.blanks) (s ++ u) := by
  rcases h with ⟨c, r, rfl, hc⟩
  refine Stops.cons_iff.2 (decide_eq_false fun hblank => ?_)
  revert hc
  exact (by decide : ∀ c ∈ Parser.blanks, ¬ (c.IsDigit ∨ c = '(')) c hblank

theorem Opens.append {s : Text} (h : Opens s) (u : Text) : Opens (s ++ u) := by
  rcases h with ⟨c, r, rfl, hc⟩
  exact ⟨c, r ++ u, rfl, hc⟩

theorem Chained.opens {L : Text → Expr → Prop} {operators s : Text} {e : Expr}
    (hL : ∀ s e, L s e → Opens s) (h : Chained L operators s e) : Opens s := by
  induction h with
  | one h => exact hL _ _ h
  | more hl hc hw hr ih => exact ih.append _

theorem IsNumeral.opens {s : Text} {n : Number} (h : IsNumeral s n) : Opens s := by
  have hdigits : ∀ ds : Text, ds ≠ [] → AreDigits ds → Opens ds := by
    intro ds hne hds
    cases ds with
    | nil => exact absurd rfl hne
    | cons d ds => exact ⟨d, ds, rfl, .inl (hds d List.mem_cons_self)⟩
  cases h with
  | integer hne hds => exact hdigits s hne hds
  | real hne hds => exact (hdigits _ hne hds).append _

theorem IsFactor.opens {s : Text} {e : Expr} (h : IsFactor s e) : Opens s := by
  cases h with
  | number h => exact h.opens.append _
  | group => exact ⟨_, _, rfl, .inr rfl⟩

theorem IsTerm.opens {s : Text} {e : Expr} (h : IsTerm s e) : Opens s := by
  rcases h with ⟨h⟩
  exact h.opens fun _ _ => IsFactor.opens

theorem IsExpr.opens {s : Text} {e : Expr} (h : IsExpr s e) : Opens s := by
  rcases h with ⟨h⟩
  exact h.opens fun _ _ => IsTerm.opens

end Arith
end Descent
