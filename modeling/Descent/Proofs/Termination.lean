import Descent.Proofs.Arith.Guarded
import Descent.Proofs.Json.Completeness
import Descent.Proofs.Json.Guarded
import Descent.Proofs.Reading

/-!
# Both grammars terminate

`p.Terminates rules verbose opens N`: whatever `p` runs ends on every text, its repetitions advance,
and the rules that it enters nest no deeper than opening characters do. Guarded parsers terminate,
and so do the parsers of JSON and of arithmetic.
-/

namespace Descent
namespace Parser

variable {ρ : Type → Type} {α : Type}

structure Terminates (rules : Rules ρ) (verbose : Bool) (opens : CodePoint → Bool) (N : Nat)
    (p : Parser ρ α) : Prop where
  /-- Every parser that `p` runs at some cursor ends at all cursors, given depth enough. -/
  ends : ∀ c q, Task.Runs rules verbose ⟨p, c⟩ q → ∀ d, ∃ r,
    q.parser.Reaches rules verbose d r ∧ r.result ≠ .abort .endless
  /-- What is repeated advances when it succeeds. -/
  many_advances : ∀ {β : Type} (body : Parser ρ β) c d,
    Task.Runs rules verbose ⟨p, c⟩ ⟨body.many, d⟩ →
      ∀ x v y, body.Succeeds rules verbose x v y → x.offset < y.offset
  /-- So does a round of an operator and an operand. -/
  chain_advances : ∀ {β : Type} (operand : Parser ρ β) operator c d,
    Task.Runs rules verbose ⟨p, c⟩ ⟨.chainLeft operand operator, d⟩ →
      ∀ x v y, RoundSucceeds rules verbose operand operator x v y → x.offset < y.offset
  /-- A rule is entered further on than `p`, -/
  entry_advances : ∀ {β : Type} (r : ρ β) c d, Task.Runs rules verbose ⟨p, c⟩ ⟨.ref r, d⟩ →
    c.offset < d.offset
  /-- and further on than the entry around it. -/
  reentry_advances : ∀ {β γ : Type} (r : ρ β) (r' : ρ γ) c d e,
    Task.Runs rules verbose ⟨p, c⟩ ⟨.ref r, d⟩ →
      Task.Runs rules verbose ⟨rules _ r, d⟩ ⟨.ref r', e⟩ → d.offset < e.offset
  /-- The entry of `p` counts as well. -/
  nesting : ∀ c n, Task.Entries rules verbose n ⟨p, c⟩ → n ≤ 1 + c.unread.countP opens
  /-- Fewer than `N` calls nest from one entry to the next. -/
  stack : ∀ c n, Task.Stacks rules verbose n ⟨p, c⟩ → n < N * (1 + c.unread.countP opens)

namespace Guarded

variable {G : Guard ρ} {N : Nat} {b : Bool} {p : Parser ρ α} {c : Cursor}

theorem terminates (hrules : ∀ {α : Type} (r : ρ α), Guarded G N false (G.rules _ r))
    (h : Guarded G N false p) : p.Terminates G.rules G.verbose G.opens N where
  ends := by
    intro c q hq d
    obtain ⟨s, m, b, -, hm, -⟩ := h.runs hrules hq
    have hends := hm.ends hrules (c := d) (Nat.le_refl _)
    refine ⟨_, ⟨hends.not_tooDeep, _, rfl⟩, fun hendless => ?_⟩
    obtain ⟨e, he, -⟩ := hends _ hendless
    exact nomatch he
  many_advances := by
    intro β body c d hq
    obtain ⟨s, m, b, -, hm, -⟩ := h.runs hrules hq
    cases m with
    | zero => exact hm.elim
    | succ m => exact consumes_iff.1 hm.2
  chain_advances := by
    rintro β operand operator c d hq x v y ⟨z, hf, hw⟩
    obtain ⟨s, m, b, -, hm, -⟩ := h.runs hrules hq
    cases m with
    | zero => exact hm.elim
    | succ m =>
      have hlt := consumes_iff.1 hm.2.2.1 x _ z hf
      obtain ⟨u, hu⟩ := hw.leads
      rw [hu.offset]; omega
  entry_advances := fun _ _ _ hr => (h.entry hrules hr).1
  reentry_advances := fun r _ _ _ _ _ hr' => ((hrules r).entry hrules hr').1
  nesting := fun _ _ hn => h.entries_le hrules hn
  stack := by
    intro c n hn
    have hends : (p.run G.rules G.verbose (N * (1 + c.unread.countP G.opens)) c).Ends G.faults := by
      rw [Nat.mul_add, Nat.mul_one]
      exact h.ends hrules (Nat.le_refl _)
    refine Nat.lt_of_not_le fun hle => hends.not_tooDeep (tooDeep_of_le hle ?_)
    exact (Task.tooDeep_iff_stacks ⟨p, c⟩ n).2 hn

end Guarded
end Parser

/-! ### The grammars -/

/-- What the grammar of JSON keeps to. -/
def Json.guard (verbose : Bool) : Parser.Guard Json.Rule :=
  ⟨Json.rules, verbose, fun c => c ∈ ("[\x7b" : Text), (· = .numeralTooLong)⟩

def Arith.guard (verbose : Bool) : Parser.Guard Arith.Rule :=
  ⟨Arith.rules, verbose, fun c => c ∈ ("(" : Text), (· = .numeralTooLong)⟩

theorem Json.guarded_rules {verbose : Bool} {α : Type} (r : Json.Rule α) :
    Parser.Guarded (Json.guard verbose) 33 false (Json.rules α r) := by
  cases r
  exact Json.guarded_element ⟨rfl, rfl⟩ _ rfl

theorem Arith.guarded_rules {verbose : Bool} {α : Type} (r : Arith.Rule α) :
    Parser.Guarded (Arith.guard verbose) 15 false (Arith.rules α r) := by
  cases r
  exact Arith.guarded_expr rfl rfl _

theorem Json.guarded_parser (verbose : Bool) :
    Parser.Guarded (Json.guard verbose) 33 false Json.parser := Json.guarded_rules .element

theorem Arith.guarded_parser (verbose : Bool) :
    Parser.Guarded (Arith.guard verbose) 15 false Arith.parser := Arith.guarded_rules .expr

theorem grammars_terminate (verbose : Bool) :
    Json.parser.Terminates Json.rules verbose (fun c => c ∈ ("[\x7b" : Text)) 33 ∧
      Arith.parser.Terminates Arith.rules verbose (fun c => c ∈ ("(" : Text)) 15 :=
  ⟨(Json.guarded_parser verbose).terminates Json.guarded_rules,
    (Arith.guarded_parser verbose).terminates Arith.guarded_rules⟩

/-! ### Entries that nest -/

open Descent.Parser

namespace Json

variable {verbose : Bool} {c : Cursor} {t : Text}

theorem runs_bracket (hc : c.unread = ('[' : CodePoint) :: t) :
    Task.Runs rules verbose ⟨parser, c⟩ ⟨.ref .element, c.skip ['[']⟩ := by
  have hblank : whitespaces.Succeeds rules verbose c [] c :=
    (Answers.whitespaces (s := []) nofun (Stops.cons_iff.2 (by decide))).succeeds hc
  have hbracket : (char '[').Succeeds rules verbose c '[' (c.skip ['[']) :=
    (Answers.char '[' t).succeeds hc
  have hmiss : ∀ p ∈ (alternatives Rule.element).take 4, p.Misses rules verbose ('[' :: t) :=
    misses_of_startsIn (List.forall₂_take 4 alternatives_start) rfl (by decide)
  have hfails : ∀ j : Fin 6, j < 4 → ((alternatives Rule.element)[j]).Fails rules verbose c :=
    fun j hj =>
      (hmiss _ (List.mem_take_iff_getElem.2 ⟨j, by simpa using ⟨hj, j.isLt⟩, rfl⟩)).fails hc
  refine .head (b := ⟨_, c⟩) (.inr ⟨_, _, hblank, rfl⟩) ?_
  refine .head (b := ⟨Grammar.value .element, c⟩) (.inl rfl) ?_
  refine .head (b := ⟨(Grammar.array .element).map Json.array, c⟩) ⟨4, hfails, rfl⟩ ?_
  refine .head (b := ⟨Grammar.array .element, c⟩) (show _ = _ from rfl) ?_
  refine .head (b := ⟨_, c.skip ['[']⟩) (.inr ⟨_, _, hbracket, rfl⟩) ?_
  refine .head (b := ⟨_, c.skip ['[']⟩) (.inl rfl) ?_
  refine .head (b := ⟨_, c.skip ['[']⟩) (.inl rfl) ?_
  exact .single (.inl rfl)

end Json

namespace Arith

variable {verbose : Bool} {c : Cursor} {t : Text}

theorem runs_parenthesis (hc : c.unread = ('(' : CodePoint) :: t) (ht : Stops (· ∈ blanks) t) :
    Task.Runs rules verbose ⟨parser, c⟩ ⟨.ref .expr, c.skip ['(']⟩ := by
  have hsymbol : (symbol "(").Succeeds rules verbose c "(" (c.skip ['(']) :=
    (symbol_answers '(' (w := []) nofun ht).succeeds hc
  have hfails : (Grammar.number.map Expr.number).Fails rules verbose c :=
    ((number_misses (Stops.cons_iff.2 (by decide))).map _).fails hc
  refine .head (b := ⟨Grammar.term .expr, c⟩) (.inl rfl) ?_
  refine .head (b := ⟨Grammar.factor .expr, c⟩) (.inl rfl) ?_
  refine .head (b := ⟨between (symbol "(") (symbol ")") (.ref .expr), c⟩)
    ⟨1, fun j hj => ?_, rfl⟩ ?_
  · obtain rfl : j = 0 := Fin.ext (Nat.lt_one_iff.1 hj)
    exact hfails
  refine .head (b := ⟨_, c.skip ['(']⟩) (.inr ⟨_, _, hsymbol, rfl⟩) ?_
  exact .single (.inl rfl)

end Arith

/-- The bound on nesting is attained by every text of opening brackets or parentheses. -/
theorem nesting_attained (verbose : Bool) (n : Nat) (name : Text) :
    Task.Entries Json.rules verbose (n + 1) ⟨Json.parser, .start (List.replicate n '[') name⟩ ∧
      Task.Entries Arith.rules verbose (n + 1)
        ⟨Arith.parser, .start (List.replicate n '(') name⟩ := by
  constructor
  · exact Task.entries_replicate (r := Json.Rule.element) (fun c n hc => Json.runs_bracket hc)
      (Cursor.unread_start _ name)
  · refine Task.entries_replicate (r := Arith.Rule.expr) (fun c n hc => ?_)
      (Cursor.unread_start _ name)
    refine Arith.runs_parenthesis hc fun x hx => ?_
    rw [List.eq_of_mem_replicate (List.mem_of_mem_head? hx)]
    decide

end Descent
