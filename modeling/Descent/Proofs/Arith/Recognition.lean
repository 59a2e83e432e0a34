import Descent.Proofs.Arith.Chain

/-!
# Recognising arithmetic

`Grammar.expr` takes the longest prefix of a text that is an expression, with the tree of its one
derivation. Soundness and completeness are each an induction on the length of the text, over the
three levels: what stands in parentheses is shorter.
-/

namespace Descent
namespace Arith

open Descent.Parser

variable {ρ : Type → Type} {rules : Rules ρ} {verbose : Bool} {self : ρ Expr} {t : Text}

/-! ### Numerals -/

theorem IsNumeral.parts {s : Text} {n : Number} (h : IsNumeral s n) :
    ∃ ds f fs, s = ds ++ f ∧ ds ≠ [] ∧ AreDigits ds ∧ IsFraction f fs := by
  cases h with
  | integer hne hds => exact ⟨s, [], [], by simp, hne, hds, .none⟩
  | real hne hds hfne hfs => exact ⟨_, _, _, rfl, hne, hds, .digits hfne hfs⟩

theorem isNumeral_append {ds f fs : Text} (hne : ds ≠ []) (hds : AreDigits ds)
    (hf : IsFraction f fs) : ∃ n, IsNumeral (ds ++ f) n := by
  cases hf with
  | none => exact ⟨_, by rw [List.append_nil]; exact .integer hne hds⟩
  | digits hfne hfs => exact ⟨_, .real hne hds hfne hfs⟩

section
variable {ds fs : Text}

theorem numberOf_digits (hds : AreDigits ds) : Grammar.numberOf ds = Number.ofInteger ds :=
  if_neg fun h => absurd (hds _ h) (by decide)

theorem numberOf_real (hne : ds ≠ []) (hds : AreDigits ds) (hfne : fs ≠ []) (hfs : AreDigits fs) :
    Grammar.numberOf (ds ++ ('.' : CodePoint) :: fs) =
      .ok (.float (.ofDecimal ⟨false, Numeral.toNat (ds ++ fs), -fs.length⟩)) := by
  have hvalue := Number.ofDecimal_append .none hne hds (.digits hfne hfs) .none
  simp only [List.nil_append, List.append_nil, Int.zero_sub] at hvalue
  rw [Grammar.numberOf, if_pos (by simp), hvalue]

end

theorem numberOf_eq {s : Text} {n : Number} (h : IsNumeral s n)
    (hruns : DigitRunsWithin Numeral.digitLimit s) : Grammar.numberOf s = .ok n := by
  cases h with
  | integer hne hds =>
    rw [numberOf_digits hds]
    exact Number.ofInteger_append .none hne hds (hruns s List.infix_rfl hds)
  | real hne hds hfne hfs => exact numberOf_real hne hds hfne hfs

/-- The text of a number without the whitespace behind it. -/
def numeral : Parser ρ Text := Grammar.realNumeral.orElse digits

/-- The fraction of a number behind its integral digits. -/
def fractionOf (whole : Text) : Parser ρ Text :=
  (char '.').keepRight (digits.map fun rest => whole ++ "." ++ rest)

theorem fractionOf_reads (ds t : Text) :
    (fractionOf (ρ := ρ) ds).Reads rules verbose
      (fun s x => x = ds ++ s ∧ s ≠ [] ∧ ∃ fs, IsFraction s fs) t := by
  refine (Reads.char '.' t).keepRight ?_
  rintro _ _ u - ⟨rfl, -⟩
  refine (Reads.digits u).map ?_
  rintro _ fs ⟨rfl, hne, hfs⟩
  exact ⟨List.append_assoc _ _ _, List.cons_ne_nil _ _, fs, .digits hne hfs⟩

theorem numeral_reads (t : Text) :
    (numeral (ρ := ρ)).Reads rules verbose (fun s x => x = s ∧ ∃ n, IsNumeral s n) t := by
  refine Reads.orElse ((Reads.digits t).bind ?_) ((Reads.digits t).mono ?_)
  · rintro _ ds u - ⟨rfl, hne, hds⟩
    refine (fractionOf_reads ds u).mono ?_
    rintro f x ⟨rfl, -, fs, hf⟩
    exact ⟨rfl, isNumeral_append hne hds hf⟩
  · rintro _ ds ⟨rfl, hne, hds⟩
    exact ⟨rfl, _, .integer hne hds⟩

theorem fractionOf_answers {fs : Text} (ds : Text) (hne : fs ≠ []) (hfs : AreDigits fs)
    (ht : Stops (·.IsDigit) t) :
    (fractionOf (ρ := ρ) ds).Answers rules verbose ('.' :: (fs ++ t))
      (.took (ds ++ ('.' : CodePoint) :: fs) ('.' :: fs)) := by
  have hword : ds ++ ("." : Text) ++ fs = ds ++ ('.' : CodePoint) :: fs :=
    List.append_assoc ds ['.'] fs
  have hlast : (digits.map fun rest => ds ++ "." ++ rest : Parser ρ Text).Answers rules verbose
      (fs ++ t) (.took (ds ++ ('.' : CodePoint) :: fs) fs) := by
    rw [← hword]
    exact (Answers.digits hne hfs ht).map _
  exact (Answers.char '.' (fs ++ t)).keepRight (s := ['.']) hlast

variable (rules verbose) in
/-- Behind its digits a numeral takes the longest fraction. -/
theorem numeral_takes {ds : Text} (hne : ds ≠ []) (hds : AreDigits ds)
    (ht : Stops (·.IsDigit) t) :
    ∃ r rs, IsFraction r rs ∧ (∀ f fs, IsFraction f fs → f <+: t → f <+: r) ∧
      (numeral (ρ := ρ)).Answers rules verbose (ds ++ t) (.took (ds ++ r) (ds ++ r)) := by
  obtain ⟨r, rs, u, rfl, hr, hu, hlongest⟩ := exists_fraction t
  refine ⟨r, rs, hr, hlongest, ?_⟩
  have hwhole : (digits (ρ := ρ)).Answers rules verbose (ds ++ (r ++ u)) (.took ds ds) :=
    .digits hne hds ht
  cases hr with
  | digits hfne hfs =>
    exact Answers.orElse nofun (hwhole.bind (fractionOf_answers ds hfne hfs (hu (by simp))))
  | none =>
    have hmiss : (fractionOf (ρ := ρ) ds).Misses rules verbose ([] ++ u) := by
      cases fractionOf_reads ds ([] ++ u) with
      | missed h => exact h
      | took hx hL h =>
        rcases hL with ⟨-, hsne, fs, hf⟩
        exact absurd (List.prefix_nil.1 (hlongest _ fs hf ⟨_, hx.symm⟩)) hsne
    rw [List.append_nil]
    exact .orElse_missed (hwhole.bind_misses hmiss) hwhole

def numeralGoesOn (c : CodePoint) : Bool := c.IsDigit ∨ c = '.'

theorem IsNumeral.goesOn {s : Text} {n : Number} (h : IsNumeral s n) :
    ∀ c ∈ s, numeralGoesOn c = true := by
  intro c hc
  cases h with
  | integer hne hds => exact decide_eq_true (.inl (hds c hc))
  | real hne hds hfne hfs =>
    rcases List.mem_append.1 hc with hc | hc
    · exact decide_eq_true (.inl (hds c hc))
    · rcases List.mem_cons.1 hc with rfl | hc
      · exact decide_eq_true (.inr rfl)
      · exact decide_eq_true (.inl (hfs c hc))

variable (rules verbose) in
theorem numeral_covers {s u : Text} {n : Number} (h : IsNumeral s n) :
    ∃ r m, IsNumeral r m ∧ s <+: r ∧
      (numeral (ρ := ρ)).Answers rules verbose (s ++ u) (.took r r) := by
  obtain ⟨ds, f, fs, rfl, hne, hds, hf⟩ := h.parts
  obtain ⟨ds', x, hx, hds', hxends⟩ := exists_digits (f ++ u)
  have hall : AreDigits (ds ++ ds') := List.forall_mem_append.2 ⟨hds, hds'⟩
  have hne' : ds ++ ds' ≠ [] := by simp [hne]
  obtain ⟨r, rs, hr, hlongest, hanswer⟩ := numeral_takes rules verbose hne' hall hxends
  obtain ⟨m, hm⟩ := isNumeral_append hne' hall hr
  refine ⟨_, m, hm, ?_, ?_⟩
  · cases ds' with
    | nil =>
      rw [List.append_nil, List.prefix_append_right_inj]
      exact hlongest f fs hf ⟨u, hx⟩
    | cons y ds' =>
      have hy : y.IsDigit := hds' y List.mem_cons_self
      rw [hf.eq_nil hx.symm hy, List.append_nil, List.append_assoc]
      exact List.prefix_append ds _
  · rw [List.append_assoc, hx, ← List.append_assoc]
    exact hanswer

/-- A numeral with whitespace behind it. -/
def IsToken (s : Text) (n : Number) : Prop := ∃ m w, s = m ++ w ∧ IsNumeral m n ∧ AreBlank w

theorem token_numeral_reads (t : Text) :
    (token numeral : Parser ρ Text).Reads rules verbose
      (fun s m => ∃ w n, s = m ++ w ∧ IsNumeral m n ∧ AreBlank w) t := by
  refine (numeral_reads t).keepLeft (fun _ _ u _ _ => Reads.whitespaces u) ?_
  rintro m _ w _ ⟨rfl, n, hm⟩ hw
  exact ⟨w, n, rfl, hm, hw⟩

theorem number_reads (hruns : DigitRunsWithin Numeral.digitLimit t) :
    (Grammar.number (ρ := ρ)).Reads rules verbose IsToken t := by
  refine (token_numeral_reads t).tryMap ?_
  rintro _ m ht ⟨w, n, rfl, hm, hw⟩
  exact ⟨n, numberOf_eq hm (hruns.of_infix ht.isInfix).left, m, w, rfl, hm, hw⟩

/-- A number ends as the conversion of its numeral does. -/
theorem number_ends {m b u : Text}
    (h : (numeral (ρ := ρ)).Answers rules verbose (m ++ (b ++ u)) (.took m m)) (hb : AreBlank b)
    (hu : Stops (· ∈ blanks) u) : (Grammar.number (ρ := ρ)).Answers rules verbose (m ++ (b ++ u))
      ((Answer.took m (m ++ b)).tryMap Grammar.numberOf) :=
  (h.keepLeft (.whitespaces hb hu)).tryMap Grammar.numberOf

def factorGoesOn (c : CodePoint) : Bool := numeralGoesOn c || decide (c ∈ blanks)

theorem number_covers (hruns : DigitRunsWithin Numeral.digitLimit t) :
    (Grammar.number (ρ := ρ)).Covers rules verbose IsToken factorGoesOn t := by
  rintro _ u n ht ⟨m, w, rfl, hm, hw⟩
  have htext : t = m ++ (w ++ u) := by rw [ht, List.append_assoc]
  obtain ⟨r, n', hr, hmr, hanswer⟩ := numeral_covers rules verbose (u := w ++ u) hm
  obtain ⟨z, hz⟩ := hanswer.prefix_of_took
  obtain ⟨b, z, rfl, hb, hzends⟩ := exists_blank z
  have hends : Stops numeralGoesOn (w ++ u) → r = m := by
    rcases hmr with ⟨x, rfl⟩
    cases x with
    | nil => exact fun _ => List.append_nil m
    | cons y x =>
      have hy : numeralGoesOn y = true := hr.goesOn y (by simp)
      exact fun hu => absurd hu (not_stops_behind ⟨_, hz⟩ hy)
  obtain ⟨hcovered, hexact, hstop⟩ := cover_blank (by decide) hw hb hzends hz hmr hends
  rw [htext, ← hz] at hruns ⊢
  rw [← hz] at hanswer
  have hnumber := number_ends hanswer hb hzends
  simp only [Answer.tryMap, numberOf_eq hr hruns.left] at hnumber
  refine ⟨n', r ++ b, hnumber, hcovered, fun heq => ?_, hstop⟩
  obtain rfl := hexact heq
  have hsame := (numberOf_eq hr hruns.left).symm.trans (numberOf_eq hm hruns.left)
  exact Except.ok.inj hsame

/-! ### Factors -/

theorem number_misses (ht : Stops (·.IsDigit) t) :
    (Grammar.number (ρ := ρ)).Misses rules verbose t :=
  Misses.tryMap _ (Misses.bind (Misses.orElse (Misses.digits ht).bind (Misses.digits ht)))

theorem factor_reads (hruns : DigitRunsWithin Numeral.digitLimit t)
    (hself : Nested ((Parser.ref self).Reads rules verbose IsExpr) t) :
    (Grammar.factor self).Reads rules verbose IsFactor t := by
  refine Reads.firstOf (List.cons_ne_nil _ _) ?_
  refine List.forall_mem_cons.2 ⟨(number_reads hruns).map ?_, List.forall_mem_singleton.2 ?_⟩
  · rintro _ n ⟨m, w, rfl, hm, hw⟩
    exact .number hm hw
  · refine (symbol_reads '(' t).between (fun o x u ht ho => hself o u ht ?_)
      (fun _ u _ => symbol_reads ')' u) ?_
    · rcases ho with ⟨c, w, rfl, -⟩
      exact List.cons_ne_nil c w
    · rintro _ _ s e _ _ ⟨c, w, rfl, -, hc, hw⟩ hs ⟨c', w', rfl, -, hc', hw'⟩
      obtain rfl := List.mem_singleton.1 hc
      obtain rfl := List.mem_singleton.1 hc'
      exact .group hw hs hw'

def termGoesOn (c : CodePoint) : Bool := factorGoesOn c || decide (c ∈ ("*/" : Text))

def exprGoesOn (c : CodePoint) : Bool := termGoesOn c || decide (c ∈ ("+-" : Text))

theorem factor_covers (hruns : DigitRunsWithin Numeral.digitLimit t)
    (hself : Nested ((Parser.ref self).Covers rules verbose IsExpr exprGoesOn) t) :
    (Grammar.factor self).Covers rules verbose IsFactor factorGoesOn t := by
  intro s u e ht h
  cases h with
  | @number m w n hm hw =>
    have hnumber : (Grammar.number (ρ := ρ)).Covers rules verbose IsToken factorGoesOn t :=
      number_covers hruns
    obtain ⟨n', r, hr, hsr, hn, hends⟩ := hnumber (m ++ w) u n ht ⟨m, w, rfl, hm, hw⟩
    refine ⟨.number n', r, Answers.firstOf [] _ nofun (hr.map _) (.inl nofun), hsr,
      fun heq => ?_, hends⟩
    rw [hn heq]
  | @group w s w' e hw h hw' =>
    obtain ⟨b, z, hz, hb, hzends⟩ := exists_blank (w' ++ u)
    have htext : t = (('(' : CodePoint) :: w) ++ (s ++ (((')' : CodePoint) :: b) ++ z)) := by
      rw [ht]
      simp [hz]
    subst htext
    have hinner := (hself (('(' : CodePoint) :: w) _ rfl (List.cons_ne_nil _ _)).answers h
      (Stops.cons_iff.2 (by decide))
    have hgroup := Answers.between (symbol_answers '(' hw (h.opens.stops _)) hinner
      (symbol_answers ')' hb hzends)
    have hmiss : (Grammar.number.map Expr.number : Parser ρ Expr).Misses rules verbose _ :=
      (number_misses (t := ('(' : CodePoint) :: (w ++ (s ++ (((')' : CodePoint) :: b) ++ z))))
        (Stops.cons_iff.2 (by decide))).map _
    obtain ⟨hcovered, -, hstop⟩ := cover_blank (C := numeralGoesOn)
      (r := (('(' : CodePoint) :: w) ++ (s ++ [(')' : CodePoint)])) (by decide) hw' hb hzends
      (congrArg (((('(' : CodePoint) :: w) ++ (s ++ [(')' : CodePoint)])) ++ ·) hz.symm)
      List.prefix_rfl fun _ => rfl
    refine ⟨e, _, Answers.firstOf [_] [] (List.forall_mem_singleton.2 hmiss) hgroup (.inl nofun),
      ?_, fun _ => rfl, fun hu => ?_⟩
    · simpa using hcovered
    · simpa using hstop hu

/-! ### Levels -/

theorem term_reads (hruns : DigitRunsWithin Numeral.digitLimit t)
    (hself : Nested ((Parser.ref self).Reads rules verbose IsExpr) t) :
    (Grammar.term self).Reads rules verbose IsTerm t := by
  have hchain : (Grammar.chain (Grammar.factor self) (either '*' '/')).Reads rules verbose
      (Chained IsFactor ['*', '/']) t := by
    refine chain_reads fun s u ht => ?_
    subst ht
    exact factor_reads hruns.right hself.right
  exact hchain.mono fun _ _ h => .intro h

theorem term_covers (hruns : DigitRunsWithin Numeral.digitLimit t)
    (hreads : Nested ((Parser.ref self).Reads rules verbose IsExpr) t)
    (hcovers : Nested ((Parser.ref self).Covers rules verbose IsExpr exprGoesOn) t) :
    (Grammar.term self).Covers rules verbose IsTerm termGoesOn t := by
  have hchain : (Grammar.chain (Grammar.factor self) (either '*' '/')).Covers rules verbose
      (Chained IsFactor ['*', '/']) termGoesOn t := by
    refine chain_covers (by decide) (fun _ _ h => h.opens) (fun s u ht => ?_) fun s u ht => ?_
    · subst ht; exact factor_reads hruns.right hreads.right
    · subst ht; exact factor_covers hruns.right hcovers.right
  intro s u e ht h
  rcases h with ⟨h⟩
  exact hchain s u e ht h

section
variable (hself : rules _ self = Grammar.expr self)
include hself

theorem expr_reads (hruns : DigitRunsWithin Numeral.digitLimit t) :
    (Grammar.expr self).Reads rules verbose IsExpr t := by
  induction t using Nested.induction with
  | _ t ih =>
    have hnested : Nested ((Parser.ref self).Reads rules verbose IsExpr) t := by
      intro s u ht hs
      subst ht
      exact .ref (hself ▸ ih s u rfl hs hruns.right)
    have hchain : (Grammar.chain (Grammar.term self) (either '+' '-')).Reads rules verbose
        (Chained IsTerm ['+', '-']) t := by
      refine chain_reads fun s u ht => ?_
      subst ht
      exact term_reads hruns.right hnested.right
    exact hchain.mono fun _ _ h => .intro h

theorem expr_covers (hruns : DigitRunsWithin Numeral.digitLimit t) :
    (Grammar.expr self).Covers rules verbose IsExpr exprGoesOn t := by
  induction t using Nested.induction with
  | _ t ih =>
    have hreads : Nested ((Parser.ref self).Reads rules verbose IsExpr) t := by
      intro s u ht hs
      subst ht
      exact .ref (hself ▸ expr_reads hself hruns.right)
    have hcovers : Nested ((Parser.ref self).Covers rules verbose IsExpr exprGoesOn) t := by
      intro s u ht hs
      subst ht
      exact .ref (hself ▸ ih s u rfl hs hruns.right)
    have hchain : (Grammar.chain (Grammar.term self) (either '+' '-')).Covers rules verbose
        (Chained IsTerm ['+', '-']) exprGoesOn t := by
      refine chain_covers (by decide) (fun _ _ h => h.opens) (fun s u ht => ?_) fun s u ht => ?_
      · subst ht; exact term_reads hruns.right hreads.right
      · subst ht; exact term_covers hruns.right hreads.right hcovers.right
    intro s u e ht h
    rcases h with ⟨h⟩
    exact hchain s u e ht h

theorem expr_readsLongest (hruns : DigitRunsWithin Numeral.digitLimit t) :
    (Grammar.expr self).ReadsLongest rules verbose IsExpr t :=
  (expr_reads hself hruns).longest (expr_covers hself hruns)

end

/-! ### The grammar as a whole -/

/-- The parser of arithmetic takes the longest prefix of a text that is an expression, with its one
tree, and fails if no prefix is one; a text as a whole is read if it is an expression. -/
theorem parser_recognises_expressions (verbose : Bool) (text name : Text)
    (hruns : DigitRunsWithin Numeral.digitLimit text) :
    ∃ r, Reaches Arith.rules verbose parser (.start text name) r ∧
      r.result.Recognises IsExpr (.start text name) ∧
      (¬ (parser.parse Arith.rules verbose (.start text name)).TooDeep →
        parser.parse Arith.rules verbose (.start text name) = r ∧
        (∀ e, (parser.readText Arith.rules verbose text name true).result = .ok e ↔
          IsExpr text e) ∧
        ((∃ f, (parser.readText Arith.rules verbose text name true).result =
            .error (.failure f)) ↔ ∀ e, ¬ IsExpr text e)) :=
  (expr_readsLongest rfl hruns).recognises name

theorem parser_reads_product_in_sum : DigitRunsWithin Numeral.digitLimit "1+2*3" ∧
    (parser.readText Arith.rules false "1+2*3" [] true).result =
      .ok (.binary "+" (.number (.int 1))
        (.binary "*" (.number (.int 2)) (.number (.int 3)))) := by
  have hruns : DigitRunsWithin Numeral.digitLimit "1+2*3" := .of_length_le (by decide)
  have hnil : AreBlank [] := nofun
  have hdigit : ∀ d : CodePoint, d.IsDigit → IsFactor [d] (.number (.int (Numeral.toNat [d]))) := by
    intro d hd
    exact .number (.integer (List.cons_ne_nil d []) (List.forall_mem_singleton.2 hd)) hnil
  have hproduct : IsTerm "2*3" (.binary "*" (.number (.int 2)) (.number (.int 3))) :=
    .intro (.more (.one (hdigit '2' (by decide))) (by decide) hnil (hdigit '3' (by decide)))
  have hsum : IsExpr "1+2*3" (.binary "+" (.number (.int 1))
      (.binary "*" (.number (.int 2)) (.number (.int 3)))) :=
    .intro (.more (.one (.intro (.one (hdigit '1' (by decide))))) (by decide) hnil hproduct)
  have hdeep : ¬ (parser.parse Arith.rules false (.start "1+2*3" [])).TooDeep := by decide +kernel
  obtain ⟨r, -, -, hread⟩ := parser_recognises_expressions false "1+2*3" [] hruns
  exact ⟨hruns, ((hread hdeep).2.1 _).2 hsum⟩

end Arith
end Descent
