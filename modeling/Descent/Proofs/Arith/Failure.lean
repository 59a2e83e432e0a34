import Descent.Proofs.Arith.Recognition
import Descent.Proofs.Calls
import Mathlib.Logic.Basic

/-!
# Where the parser of arithmetic fails

A chain does not fail behind its first operand, and an operand fails as a group in parentheses does,
whatever the attempt at a number came to. So a text fails behind some of the parentheses that it
opens with: either no operand follows them, or the longest expression that follows is not closed
(`parser_failure_iff`).
-/

namespace Descent
namespace Arith

open Descent.Parser

variable {ρ : Type → Type} {rules : Rules ρ} {verbose : Bool} {self : ρ Expr} {t : Text}

/-! ### Opening parentheses -/

/-- `t` starts with `b`, which is `k` opening parentheses, each with all the whitespace behind it,
and goes on with `r`. -/
inductive Opened (t : Text) : Nat → Text → Text → Prop where
  | zero : Opened t 0 [] t
  | succ {k : Nat} {b w r : Text} (h : Opened t k b ('(' :: (w ++ r))) (hw : AreBlank w)
      (hr : Stops (· ∈ blanks) r) : Opened t (k + 1) (b ++ ('(' : CodePoint) :: w) r

namespace Opened

variable {k : Nat} {b w r : Text}

theorem eq_append (h : Opened t k b r) : t = b ++ r := by
  induction h with
  | zero => rfl
  | succ _ _ _ ih => rw [ih, List.append_assoc, List.cons_append]

/-- Another parenthesis in front. -/
theorem group (h : Opened t k b r) (hw : AreBlank w) (ht : Stops (· ∈ blanks) t) :
    Opened ('(' :: (w ++ t)) (k + 1) ('(' :: (w ++ b)) r := by
  induction h with
  | zero =>
    rw [List.append_nil]
    exact .succ .zero hw ht
  | @succ k b w' r _ hw' hr ih =>
    have h := Opened.succ ih hw' hr
    rw [List.cons_append, List.append_assoc] at h
    exact h

end Opened

/-- Behind the parentheses that `b` ends with stands no operand. -/
def LacksOperand (t b message : Text) : Prop :=
  ∃ k r, Opened t k b r ∧ ¬ Opens r ∧ message = expected ['('] r

/-- The longest expression behind a parenthesis is the end of `b`, and it is not closed. -/
def LacksClosing (t b message : Text) : Prop :=
  ∃ k a r s u e, Opened t (k + 1) a r ∧ r = s ++ u ∧ IsLongest IsExpr r s e ∧
    (')' : CodePoint) ∉ u.head? ∧ b = a ++ s ∧ message = expected [')'] u

section
variable {b w message : Text}

theorem LacksOperand.group (h : LacksOperand t b message) (hw : AreBlank w)
    (ht : Stops (· ∈ blanks) t) : LacksOperand ('(' :: (w ++ t)) ('(' :: (w ++ b)) message := by
  obtain ⟨k, r, hopened, hr, hmessage⟩ := h
  exact ⟨k + 1, r, hopened.group hw ht, hr, hmessage⟩

theorem LacksClosing.group (h : LacksClosing t b message) (hw : AreBlank w)
    (ht : Stops (· ∈ blanks) t) : LacksClosing ('(' :: (w ++ t)) ('(' :: (w ++ b)) message := by
  obtain ⟨k, a, r, s, u, e, hopened, hr, hs, hu, rfl, hmessage⟩ := h
  have hb : ('(' : CodePoint) :: (w ++ (a ++ s)) = (('(' : CodePoint) :: (w ++ a)) ++ s := by simp
  exact ⟨k + 1, _, r, s, u, e, hopened.group hw ht, hr, hs, hu, hb, hmessage⟩

end

/-! ### Parsers -/

theorem not_opens_iff : ¬ Opens t ↔ Stops (·.IsDigit) t ∧ ('(' : CodePoint) ∉ t.head? := by
  cases t with
  | nil => simp [Opens, Stops]
  | cons x t => simp [Opens, Stops]

section
variable {s u : Text} {e : Expr} {message : Text}

/-- A text that starts with no number fails as a group does. -/
theorem expr_missed (ht : Stops (·.IsDigit) t)
    (h : (between (symbol "(") (symbol ")") (.ref self)).Answers rules verbose t
      (.missed s message)) : (Grammar.expr self).Answers rules verbose t (.missed s message) := by
  have hnumber : (Grammar.number.map Expr.number : Parser ρ Expr).Misses rules verbose t :=
    (number_misses ht).map _
  have hfactor : (Grammar.factor self).Answers rules verbose t (.missed s message) :=
    Answers.firstOf [_] [] (List.forall_mem_singleton.2 hnumber) h (.inr rfl)
  exact hfactor.chainLeft_missed.chainLeft_missed

theorem expr_missed_operand (h : ¬ Opens t) :
    (Grammar.expr self).Answers rules verbose t (.missed [] (expected ['('] t)) := by
  obtain ⟨hdigit, hparenthesis⟩ := not_opens_iff.1 h
  exact expr_missed hdigit (symbol_answers_missed hparenthesis).bind_missed

/-- What fails behind an opening parenthesis fails there. -/
theorem expr_missed_behind {w r : Text} (hw : AreBlank w) (hr : Stops (· ∈ blanks) r)
    (h : ((Parser.ref self).bind fun e => (symbol (ρ := ρ) ")").bind fun _ => .pure e).Answers
      rules verbose r (.missed s message)) :
    (Grammar.expr self).Answers rules verbose ('(' :: (w ++ r))
      (.missed ('(' :: (w ++ s)) message) := by
  have hgroup := (symbol_answers '(' hw hr).bind (s := '(' :: w)
    (k := fun _ => (Parser.ref self).bind fun e => (symbol ")").bind fun _ => .pure e) h
  exact expr_missed (Stops.cons_iff.2 (by decide)) hgroup

variable (hself : rules _ self = Grammar.expr self)
include hself

theorem expr_missed_closing {w : Text} (hw : AreBlank w) (hr : Stops (· ∈ blanks) (s ++ u))
    (h : (Grammar.expr self).Answers rules verbose (s ++ u) (.took e s))
    (hu : (')' : CodePoint) ∉ u.head?) :
    (Grammar.expr self).Answers rules verbose ('(' :: (w ++ (s ++ u)))
      (.missed ('(' :: (w ++ s)) (expected [')'] u)) := by
  have hinner : (Parser.ref self).Answers rules verbose (s ++ u) (.took e s) := .ref (hself ▸ h)
  have hclosing := hinner.bind (k := fun e => (symbol (ρ := ρ) ")").bind fun _ => .pure e)
    (symbol_answers_missed hu).bind_missed
  simp only [Answer.behind, List.append_nil] at hclosing
  exact expr_missed_behind hw hr hclosing

theorem expr_missed_group {w r : Text} (hw : AreBlank w) (hr : Stops (· ∈ blanks) r)
    (h : (Grammar.expr self).Answers rules verbose r (.missed s message)) :
    (Grammar.expr self).Answers rules verbose ('(' :: (w ++ r))
      (.missed ('(' :: (w ++ s)) message) := by
  have hinner : (Parser.ref self).Answers rules verbose r (.missed s message) := .ref (hself ▸ h)
  exact expr_missed_behind hw hr hinner.bind_missed

/-- What fails behind any number of opening parentheses fails there. -/
theorem Opened.expr_missed {k : Nat} {b r : Text} (hb : Opened t k b r)
    (h : (Grammar.expr self).Answers rules verbose r (.missed s message)) :
    (Grammar.expr self).Answers rules verbose t (.missed (b ++ s) message) := by
  induction hb generalizing s with
  | zero => exact h
  | @succ k b w r _ hw hr ih =>
    have hall := ih (expr_missed_group hself hw hr h)
    rw [List.append_assoc, List.cons_append]
    exact hall

theorem LacksOperand.expr_missed {b : Text} (hb : LacksOperand t b message) :
    (Grammar.expr self).Answers rules verbose t (.missed b message) := by
  obtain ⟨k, r, hopened, hr, rfl⟩ := hb
  have hall : (Grammar.expr self).Answers rules verbose t (.missed (b ++ []) _) :=
    hopened.expr_missed hself (expr_missed_operand hr)
  rw [List.append_nil] at hall
  exact hall

theorem LacksClosing.expr_missed {b : Text} (hruns : DigitRunsWithin Numeral.digitLimit t)
    (hb : LacksClosing t b message) :
    (Grammar.expr self).Answers rules verbose t (.missed b message) := by
  obtain ⟨k, _, r, s, u, e, hopened, rfl, hs, hu, rfl, rfl⟩ := hb
  cases hopened with
  | @succ k a w _ h hw hr =>
    rw [h.eq_append] at hruns
    have hrest : DigitRunsWithin Numeral.digitLimit (s ++ u) := hruns.right.of_infix
      ⟨('(' : CodePoint) :: w, [], by simp⟩
    have hlongest : (Grammar.expr self).ReadsLongest rules verbose IsExpr (s ++ u) :=
      expr_readsLongest hself hrest
    cases hlongest with
    | missed hnone => exact absurd ((hs.meaning e).2 rfl) (hnone s e hs.within)
    | took hs' h' =>
      obtain ⟨rfl, rfl⟩ := hs.unique hs'
      have hall := h.expr_missed hself (expr_missed_closing hself hw hr h' hu)
      rw [List.append_assoc, List.cons_append]
      exact hall

end

/-! ### Texts that fail -/

theorem isExpr_of_isFactor {s : Text} {e : Expr} (h : IsFactor s e) : IsExpr s e :=
  .intro (.one (.intro (.one h)))

/-- A text that starts with no expression lacks an operand or a closing parenthesis. -/
theorem exists_lacking (hruns : DigitRunsWithin Numeral.digitLimit t)
    (hnone : ∀ s e, s <+: t → ¬ IsExpr s e) :
    ∃ b message, LacksOperand t b message ∨ LacksClosing t b message := by
  induction t using Nested.induction with
  | _ t ih =>
    by_cases ht : Opens t
    · obtain ⟨c, r, rfl, hc | rfl⟩ := ht
      · have hdigit : IsNumeral [c] (.int (Numeral.toNat [c])) :=
          .integer (List.cons_ne_nil c []) (List.forall_mem_singleton.2 hc)
        have hfactor : IsFactor [c] _ := .number hdigit (w := []) nofun
        exact absurd (isExpr_of_isFactor hfactor) (hnone _ _ ⟨r, rfl⟩)
      · obtain ⟨w, r, rfl, hw, hr⟩ := exists_blank r
        have hrest : DigitRunsWithin Numeral.digitLimit r :=
          hruns.of_infix ⟨('(' : CodePoint) :: w, [], by simp⟩
        have hlongest : Arith.parser.ReadsLongest Arith.rules false IsExpr r :=
          expr_readsLongest rfl hrest
        cases hlongest with
        | @took e s hs _ =>
          obtain ⟨u, rfl⟩ := hs.within
          by_cases hu : (')' : CodePoint) ∈ u.head?
          · obtain ⟨x, rfl⟩ := List.head?_eq_some_iff.1 hu
            have hnil : AreBlank [] := nofun
            have hgroup := isExpr_of_isFactor (.group hw ((hs.meaning e).2 rfl) hnil)
            exact absurd hgroup (hnone _ _ ⟨x, by simp⟩)
          · exact ⟨_, _, .inr ⟨0, _, _, s, u, e, .succ .zero hw hr, rfl, hs, hu, rfl, rfl⟩⟩
        | missed hnone' =>
          obtain ⟨b, message, h⟩ :=
            ih (('(' : CodePoint) :: w) r rfl (List.cons_ne_nil _ _) hrest hnone'
          exact ⟨_, message, h.imp (·.group hw hr) (·.group hw hr)⟩
    · exact ⟨[], _, .inl ⟨0, t, .zero, ht, rfl⟩⟩

theorem LacksClosing.isPrefix {b message : Text} (h : LacksClosing t b message) : b <+: t := by
  obtain ⟨k, a, r, s, u, e, hopened, rfl, -, -, rfl, -⟩ := h
  exact ⟨u, by rw [hopened.eq_append, List.append_assoc]⟩

theorem LacksOperand.not_lacksClosing {b b' message : Text} (h : LacksOperand t b message) :
    ¬ LacksClosing t b' message := by
  obtain ⟨_, r, -, -, rfl⟩ := h
  rintro ⟨_, _, _, _, u, _, -, -, -, -, -, hmessage⟩
  exact absurd (eq_of_expected_eq hmessage) (by decide)

/-! ### The grammar as a whole -/

/-- The parser of arithmetic fails behind the parentheses that a text opens with, if no operand
follows them, or behind the longest expression that follows them, if that is not closed. A text that
starts with an operand is never failed. -/
theorem parser_failure_iff (verbose : Bool) (c : Cursor)
    (hruns : DigitRunsWithin Numeral.digitLimit c.unread) :
    (∀ f, (∃ n, (parser.run Arith.rules verbose n c).result = .failure f) ↔
      ∃ b message, Xor (LacksOperand c.unread b message) (LacksClosing c.unread b message) ∧
        f = ⟨(c.skip b).position, message⟩) ∧
    ∀ s e, s <+: c.unread → IsFactor s e → ∃ v d, parser.Succeeds Arith.rules verbose c v d := by
  have hlongest : parser.ReadsLongest Arith.rules verbose IsExpr c.unread :=
    expr_readsLongest rfl hruns
  have hmissed {b message : Text}
      (h : LacksOperand c.unread b message ∨ LacksClosing c.unread b message) :
      parser.Answers Arith.rules verbose c.unread (.missed b message) :=
    h.elim (·.expr_missed rfl) (·.expr_missed rfl hruns)
  refine ⟨fun f => ⟨?_, ?_⟩, fun s e hs he => ?_⟩
  · rintro ⟨n, hn⟩
    have hdeep : ¬ (parser.run Arith.rules verbose n c).TooDeep := fun hdeep =>
      absurd (hn.symm.trans hdeep) (by simp)
    cases hlongest with
    | took _ h =>
      have hres := hn.symm.trans (h.result_of_not_tooDeep rfl hdeep)
      exact absurd hres (by simp [Answer.outcome])
    | missed hnone _ =>
      obtain ⟨b, message, h⟩ := exists_lacking hruns hnone
      have hres := hn.symm.trans ((hmissed h).result_of_not_tooDeep rfl hdeep)
      refine ⟨b, message, ?_, Outcome.failure.inj hres⟩
      exact h.imp (fun h => ⟨h, h.not_lacksClosing⟩) fun h => ⟨h, fun h' => h'.not_lacksClosing h⟩
  · rintro ⟨b, message, h, rfl⟩
    obtain ⟨r, ⟨-, n, rfl⟩, hr⟩ := (hmissed (Xor.or h)).reaches (c := c) rfl
    exact ⟨n, hr⟩
  · cases hlongest with
    | took _ h => exact ⟨_, _, h.succeeds rfl⟩
    | missed hnone _ => exact absurd (isExpr_of_isFactor he) (hnone s e hs)

/-- The outer parenthesis is not closed behind the product. -/
theorem parser_failure_iff_unclosed :
    let c : Cursor := .start "( (1+2)*3 4)" []
    let d : Cursor := .start "1)" []
    DigitRunsWithin Numeral.digitLimit c.unread ∧ DigitRunsWithin Numeral.digitLimit d.unread ∧
      (parser.run Arith.rules false nestingLimit c).result =
        .failure ⟨(c.skip "( (1+2)*3 ").position, "Expected ), but got 4"⟩ ∧
      LacksClosing c.unread "( (1+2)*3 " "Expected ), but got 4" ∧
      IsFactor "1" (.number (.int 1)) ∧ ∃ e x, parser.Succeeds Arith.rules false d e x := by
  intro c d
  have hc : DigitRunsWithin Numeral.digitLimit c.unread := .of_length_le (by decide +kernel)
  have hd : DigitRunsWithin Numeral.digitLimit d.unread := .of_length_le (by decide +kernel)
  have hresult : (parser.run Arith.rules false nestingLimit c).result =
      .failure ⟨(c.skip "( (1+2)*3 ").position, "Expected ), but got 4"⟩ := by decide +kernel
  have hone : IsNumeral "1" (.int (Numeral.toNat "1")) :=
    .integer (by decide) (List.forall_mem_singleton.2 (by decide))
  have hfactor : IsFactor "1" (.number (.int 1)) := .number hone (w := []) nofun
  refine ⟨hc, hd, hresult, ?_, hfactor, (parser_failure_iff false d hd).2 "1" _ ?_ hfactor⟩
  · obtain ⟨b, message, h, hf⟩ := ((parser_failure_iff false c hc).1 _).1 ⟨_, hresult⟩
    obtain ⟨hposition, rfl⟩ := Failure.mk.inj hf
    rcases h with ⟨⟨_, r, -, -, hmessage⟩, -⟩ | ⟨hclosing, -⟩
    · have hsame : expected [')'] "4" = expected ['('] r := hmessage
      exact absurd (eq_of_expected_eq hsame) (by decide)
    · have hbehind : "( (1+2)*3 " = b :=
        Position.updateAll_inj ⟨"4)", rfl⟩ hclosing.isPrefix hposition
      rwa [hbehind]
  · exact ⟨")", rfl⟩

end Arith
end Descent
