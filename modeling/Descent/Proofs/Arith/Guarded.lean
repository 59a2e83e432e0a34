import Descent.Proofs.Arith.Recognition
import Descent.Proofs.Guarded

/-!
# The grammar of arithmetic is guarded

Expressions within expressions stand behind an opening parenthesis, every operator consumes, and the
one conversion that may fault is that of an integer with too many digits.
-/

namespace Descent
namespace Arith

open Descent.Parser

variable {ρ : Type → Type} {G : Guard ρ} {b : Bool}

/-- A numeral makes a number, unless it is an integer with too many digits. -/
theorem numberOf_error {s : Text} {n : Number} {fault : Fault} (hs : IsNumeral s n)
    (h : Grammar.numberOf s = .error fault) : fault = .numeralTooLong := by
  cases hs with
  | integer hne hds =>
    rw [numberOf_digits hds] at h
    by_cases hlen : s.length ≤ Numeral.digitLimit
    · exact nomatch (Number.ofInteger_append .none hne hds hlen).symm.trans h
    · have hlong := Number.ofInteger_tooLong .none hne hds (Nat.lt_of_not_le hlen)
      exact Except.error.inj (h.symm.trans hlong)
  | real hne hds hfne hfs => exact nomatch (numberOf_real hne hds hfne hfs).symm.trans h

theorem guarded_number (hfaults : G.faults .numeralTooLong) :
    Guarded G 11 b (Grammar.number (ρ := ρ)) := by
  have hreal : Guarded G 8 b (Grammar.realNumeral (ρ := ρ)) :=
    (Guarded.digits.deeper (by decide)).bind fun _ _ _ _ =>
      ((Guarded.char '.').deeper (by decide)).keepRight (Guarded.digits.map _)
  have hnumeral : Guarded G 9 b (numeral (ρ := ρ)) := ⟨hreal, Guarded.digits.deeper (by decide)⟩
  refine ⟨hnumeral.token, fun t m s fault hm hfault => ?_⟩
  obtain ⟨w, n, -, hn, -⟩ := (token_numeral_reads t).sound hm
  rw [numberOf_error hn hfault]
  exact hfaults

theorem guarded_symbol (c : CodePoint) : Guarded G 5 b (symbol (ρ := ρ) [c]) := by
  have hstring : Guarded G 3 b (Parser.string (ρ := ρ) [c]) := .string [c]
  exact (hstring.deeper (by decide)).token

theorem guarded_chain {n : Nat} {operand : Parser ρ Expr} (c d : CodePoint)
    (h : Guarded G n b operand) (hn : 7 ≤ n) :
    Guarded G (n + 1) b (Grammar.chain operand (either c d)) := by
  have heither : Guarded G 6 b (either (ρ := ρ) c d) := ⟨guarded_symbol c, guarded_symbol d⟩
  have hoperator : Guarded G n b (joining (ρ := ρ) (either c d)) := (heither.map _).deeper hn
  refine ⟨h, hoperator, fun t f hf => ?_, fun t f s v w e hf he => ?_⟩
  · exact ((joining_reads c d t).sound hf).ne_nil rfl
  · obtain ⟨x, u, -, rfl, -⟩ := (joining_reads c d t).sound hf
    exact nomatch he

section
variable (hopens : G.opens '(' = true) (hfaults : G.faults .numeralTooLong) (self : ρ Expr)
include hopens hfaults

theorem guarded_factor : Guarded G 13 b (Grammar.factor self) := by
  refine Guarded.firstOf (List.forall_mem_cons.2 ⟨(guarded_number hfaults).map _,
    List.forall_mem_singleton.2 ?_⟩)
  have hgroup : Guarded G 8 b (between (symbol "(") (symbol ")") (.ref self)) := by
    refine Guarded.between_open (n := 5) ((guarded_symbol '(').deeper (by decide))
      (fun t v s h => ?_) rfl (guarded_symbol ')')
    obtain ⟨c, w, rfl, -, hc, -⟩ := (symbol_reads '(' t).sound h
    obtain rfl := List.mem_singleton.1 hc
    simp [hopens]
  exact hgroup.deeper (by decide)

theorem guarded_expr : Guarded G 15 b (Grammar.expr self) := by
  have hterm : Guarded G 14 b (Grammar.term self) :=
    guarded_chain '*' '/' (guarded_factor hopens hfaults self) (by decide)
  exact guarded_chain '+' '-' hterm (by decide)

end

end Arith
end Descent
