import Descent.Proofs.Arith.Recognition
import Descent.Proofs.Taking

/-!
# What the parser of arithmetic takes

Whatever the text, a success of `Grammar.expr` takes an expression, with the tree of it
(`expr_takes`), and its integers are short enough to be converted. What is left unread may hold
runs of digits of any length.
-/

namespace Descent
namespace Arith

open Descent.Parser

variable {ρ : Type → Type} {rules : Rules ρ} {verbose : Bool} {self : ρ Expr} {n : Nat}

/-! ### Numerals that were converted -/

/-- Where no point stands every run of digits is an integer, and short enough for one. -/
def Converts (s : Text) : Prop :=
  ('.' : CodePoint) ∉ s → DigitRunsWithin Numeral.digitLimit s

/-- A word of `L` with numerals that were converted. -/
def Converted {α : Type} (L : Text → α → Prop) (s : Text) (v : α) : Prop := L s v ∧ Converts s

theorem not_isDigit_of_blank : ∀ c ∈ blanks, ¬ c.IsDigit := by decide

namespace Converts

variable {s u w : Text} {c : CodePoint}

theorem join (hc : ¬ c.IsDigit) (hs : Converts s) (hu : Converts u) : Converts (s ++ c :: u) := by
  intro hpoint
  simp only [List.mem_append, List.mem_cons, not_or] at hpoint
  exact .join hc (hs hpoint.1) (hu hpoint.2.2)

theorem nil : Converts [] := fun _ => .nil

theorem cons (hc : ¬ c.IsDigit) (hu : Converts u) : Converts (c :: u) := join hc nil hu

theorem append_blank (hw : AreBlank w) (hs : Converts s) : Converts (s ++ w) := by
  intro hpoint
  have hs' := hs fun h => hpoint (List.mem_append_left w h)
  exact hs'.append_of_not_digits fun c hc => not_isDigit_of_blank c (hw c hc)

theorem blank_append (hw : AreBlank w) (hs : Converts s) : Converts (w ++ s) := by
  intro hpoint
  have hs' := hs fun h => hpoint (List.mem_append_right w h)
  exact .of_not_digits_append (fun c hc => not_isDigit_of_blank c (hw c hc)) hs'

end Converts

theorem numberOf_ok {s : Text} {x y : Number} (h : IsNumeral s x)
    (hy : Grammar.numberOf s = .ok y) : y = x ∧ Converts s := by
  cases h with
  | real hne hds hfne hfs =>
    rw [numberOf_real hne hds hfne hfs] at hy
    exact ⟨(Except.ok.inj hy).symm, fun hpoint => absurd (by simp) hpoint⟩
  | integer hne hds =>
    by_cases hlen : s.length ≤ Numeral.digitLimit
    · have hruns : DigitRunsWithin Numeral.digitLimit s := .of_length_le hlen
      rw [numberOf_eq (.integer hne hds) hruns] at hy
      exact ⟨(Except.ok.inj hy).symm, fun _ => hruns⟩
    · have hlong := Number.ofInteger_tooLong .none hne hds (Nat.lt_of_not_le hlen)
      rw [numberOf_digits hds] at hy
      exact nomatch hy.symm.trans hlong

/-! ### Levels -/

theorem number_takes : (Grammar.number (ρ := ρ)).Takes rules verbose (Converted IsToken) n := by
  refine (Reads.takes token_numeral_reads n).tryMap ?_
  rintro _ m y ⟨w, x, rfl, hm, hw⟩ hy
  obtain ⟨rfl, hconverts⟩ := numberOf_ok hm hy
  exact ⟨⟨m, w, rfl, hm, hw⟩, hconverts.append_blank hw⟩

theorem chain_takes {operand : Parser ρ Expr} {L : Text → Expr → Prop} {c d : CodePoint}
    (hcd : ∀ x ∈ [c, d], ¬ x.IsDigit) (h : operand.Takes rules verbose (Converted L) n) :
    (Grammar.chain operand (either c d)).Takes rules verbose (Converted (Chained L [c, d])) n := by
  refine Takes.chainLeft ?_ h (Reads.takes (joining_reads c d) n) fun s e hs => ⟨.one hs.1, hs.2⟩
  rintro s l r f u e x ⟨hl, hls⟩ hf ⟨he, hus⟩ hx
  obtain ⟨v, hv, hjoined⟩ := hl.join hf he
  obtain rfl := Except.ok.inj (hx.symm.trans hv)
  refine ⟨hjoined, ?_⟩
  rcases hf with ⟨y, w, rfl, -, hy, hw⟩
  exact hls.join (hcd y hy) (hus.blank_append hw)

section
variable (hself : (Parser.ref self).Takes rules verbose (Converted IsExpr) n)
include hself

theorem factor_takes : (Grammar.factor self).Takes rules verbose (Converted IsFactor) n := by
  refine Takes.firstOf (List.forall_mem_cons.2 ⟨number_takes.map ?_,
    List.forall_mem_singleton.2 ?_⟩)
  · rintro _ x ⟨⟨m, w, rfl, hm, hw⟩, hconverts⟩
    exact ⟨.number hm hw, hconverts⟩
  · refine Takes.between (Reads.takes (symbol_reads '(') n) hself
      (Reads.takes (symbol_reads ')') n) ?_
    rintro _ _ s e _ _ ⟨c, w, rfl, -, hc, hw⟩ ⟨hs, hconverts⟩ ⟨c', w', rfl, -, hc', hw'⟩
    obtain rfl := List.mem_singleton.1 hc
    obtain rfl := List.mem_singleton.1 hc'
    refine ⟨.group hw hs hw', .cons (by decide) (.blank_append hw ?_)⟩
    have hblank : Converts w' := Converts.nil.append_blank hw'
    exact hconverts.join (by decide) hblank

theorem term_takes : (Grammar.term self).Takes rules verbose (Converted IsTerm) n := by
  have hchain : (Grammar.chain (Grammar.factor self) (either '*' '/')).Takes rules verbose _ n :=
    chain_takes (by decide) (factor_takes hself)
  exact hchain.mono fun s e h => ⟨.intro h.1, h.2⟩

theorem expr_takes_of_ref : (Grammar.expr self).Takes rules verbose (Converted IsExpr) n := by
  have hchain : (Grammar.chain (Grammar.term self) (either '+' '-')).Takes rules verbose _ n :=
    chain_takes (by decide) (term_takes hself)
  exact hchain.mono fun s e h => ⟨.intro h.1, h.2⟩

end

theorem expr_takes (hself : rules _ self = Grammar.expr self) (n : Nat) :
    (Grammar.expr self).Takes rules verbose (Converted IsExpr) n := by
  refine expr_takes_of_ref ?_
  induction n with
  | zero => exact .zero _ _
  | succ n ih =>
    have hrule : (rules _ self).Takes rules verbose (Converted IsExpr) n := by
      rw [hself]
      exact expr_takes_of_ref ih
    exact hrule.ref

end Arith
end Descent
