import Descent.Proofs.Termination

/-!
# What a reading is given up for

A reading is given up if it ends in neither a value nor a failure. For the grammars there is one
reason: an integer with more digits than can be converted. It takes a text with a run of digits
beyond the limit, and every such integer is refused so, as a number of JSON (`Json.element_tooLong`)
and of arithmetic (`Arith.expr_tooLong`).
-/

namespace Descent

namespace Parser

variable {ρ : Type → Type} {α : Type} {rules : Rules ρ} {verbose : Bool} {p : Parser ρ α}
  {text name : Text} {a : Abort}

/-! ### Ways to read a text -/

/-- One of the ways to read `text` ends in neither a value nor a failure, but in `a`. -/
def GivesUp (rules : Rules ρ) (verbose : Bool) (p : Parser ρ α) (text name : Text) (a : Abort) :
    Prop :=
  (∃ consumeAll, (p.readText rules verbose text name consumeAll).result = .error (.abort a)) ∨
    (p.runText rules verbose text name).result = .error a

theorem attempt_abort_iff {c : Cursor} : (p.attempt rules verbose c).result = .abort a ↔
    (p.parse rules verbose c).result = .abort a ∧ a.isNesting = false := by
  simp only [attempt]
  split
  · next b hb =>
    rw [hb]
    cases hnest : b.isNesting with
    | true =>
      refine iff_of_false (by simp) ?_
      rintro ⟨h, ha⟩
      rw [← Outcome.abort.inj h, hnest] at ha
      cases ha
    | false =>
      simp only [Bool.false_eq_true, if_false, hb]
      exact ⟨fun h => ⟨h, Outcome.abort.inj h ▸ hnest⟩, And.left⟩
  · next hne => exact iff_of_false (hne a) fun h => hne a h.1

theorem runText_abort_iff : (p.runText rules verbose text name).result = .error a ↔
    (p.parse rules verbose (.start text name)).result = .abort a ∧ a.isNesting = false := by
  rw [← attempt_abort_iff, runText, Recorded.map]
  cases (p.attempt rules verbose (.start text name)).result <;> simp

theorem readText_abort_iff (consumeAll : Bool) :
    (p.readText rules verbose text name consumeAll).result = .error (.abort a) ↔
      (p.parse rules verbose (.start text name)).result = .abort a ∧ a.isNesting = false := by
  rw [← attempt_abort_iff, readText]
  cases (p.attempt rules verbose (.start text name)).result with
  | failure f => simp
  | abort b => simp
  | success v c =>
    refine iff_of_false (fun h => ?_) (by simp)
    -- A character is there to be named in the failure if the end has not been reached.
    cases hu : c.unread with
    | nil =>
      have hc : c.AtEnd := c.atEnd_iff_unread_eq_nil.2 hu
      simp [hc] at h
    | cons x t =>
      simp only [(c.current_of_unread hu).1] at h
      split at h <;> cases h

theorem givesUp_iff : p.GivesUp rules verbose text name a ↔
    (p.parse rules verbose (.start text name)).result = .abort a ∧ a.isNesting = false := by
  simp only [GivesUp, readText_abort_iff, runText_abort_iff, exists_const, or_self]

theorem GivesUp.not_tooDeep (h : p.GivesUp rules verbose text name a) :
    ¬ (p.parse rules verbose (.start text name)).TooDeep := by
  obtain ⟨hparse, hnest⟩ := givesUp_iff.1 h
  intro hdeep
  rw [← Outcome.abort.inj (hdeep.symm.trans hparse)] at hnest
  exact nomatch hnest

/-- A parser that takes a word or misses comes to a value or a failure. -/
theorem Reads.not_givesUp {L : Text → α → Prop} (h : p.Reads rules verbose L text) :
    ¬ p.GivesUp rules verbose text name a := by
  intro ha
  have hanswer {b : Answer α} (hb : p.Answers rules verbose text b) :
      .abort a = b.outcome (.start text name) :=
    (givesUp_iff.1 ha).1.symm.trans
      (hb.result_of_not_tooDeep (Cursor.unread_start text name) ha.not_tooDeep)
  cases h with
  | took ht hL h => exact nomatch hanswer h
  | missed h =>
    obtain ⟨s, message, h⟩ := h
    exact nomatch hanswer h

section
variable {G : Guard ρ} {N : Nat} (hrules : ∀ {α : Type} (r : ρ α), Guarded G N false (G.rules _ r))
  (h : Guarded G N false p)
include hrules h

theorem Guarded.fault_of_givesUp (ha : p.GivesUp G.rules G.verbose text name a) :
    ∃ e, a = .fault e ∧ G.faults e := by
  have hends := h.ends hrules (c := .start text name) (Nat.le_refl _)
  have hsame := Reaches.unique ⟨ha.not_tooDeep, nestingLimit, rfl⟩ ⟨hends.not_tooDeep, _, rfl⟩
  rw [← hsame] at hends
  exact hends a (givesUp_iff.1 ha).1

/-- Without opening characters there is nothing to nest. -/
theorem Guarded.parse_not_tooDeep {c : Cursor} (hN : N ≤ nestingLimit)
    (hc : ∀ x ∈ c.unread, ¬ G.opens x) : ¬ (p.parse G.rules G.verbose c).TooDeep := by
  have hends := h.ends hrules (k := 0) (c := c) (Nat.le_of_eq (List.countP_eq_zero.2 hc))
  rw [parse, run_of_le hN hends.not_tooDeep]
  exact hends.not_tooDeep

end

end Parser

/-! ### Integers with too many digits -/

section
open Descent.Parser

variable {ρ : Type → Type} {rules : Rules ρ} {verbose : Bool} {ds t : Text}

theorem Json.element_tooLong {self : ρ Json} {w sg : Text} {negative : Bool} (hw : AreBlank w)
    (hsg : IsMinus sg negative) (hds : IsInteger ds) (hlen : Numeral.digitLimit < ds.length)
    (ht : Stops goesOn t) :
    (Grammar.element self).Answers rules verbose (w ++ (sg ++ (ds ++ t)))
      (.stopped (.fault .numeralTooLong)) := by
  have hliteral : (Grammar.numberLiteral (ρ := ρ)).Answers rules verbose (sg ++ (ds ++ t))
      (.stopped (.fault .numeralTooLong)) := numberLiteral_tooLong hsg hds ht hlen
  obtain ⟨y, r, hword, hy⟩ := (IsNumber.intro hsg hds .none .none).head
  have htext : sg ++ (ds ++ t) = y :: (r ++ t) := by
    simpa using congrArg (· ++ t) hword
  have hblank : Stops (· ∈ blanks) (y :: (r ++ t)) := by
    refine Stops.cons_iff.2 (decide_eq_false fun hmem => ?_)
    rcases hy with rfl | hy
    · exact absurd hmem (by decide)
    · exact absurd hy ((by decide : ∀ c ∈ blanks, ¬ c.IsDigit) y hmem)
  rw [htext] at hliteral ⊢
  have hvalue : (Grammar.value self).Answers rules verbose (y :: (r ++ t))
      (.stopped (.fault .numeralTooLong)) := value_number_stopped hy hliteral
  exact (Answers.whitespaces hw hblank).bind (k := fun _ => _) hvalue.bind_stopped

theorem Arith.expr_tooLong {self : ρ Expr} (hne : ds ≠ []) (hds : AreDigits ds)
    (hlen : Numeral.digitLimit < ds.length) (ht : Stops numeralGoesOn t) :
    (Grammar.expr self).Answers rules verbose (ds ++ t) (.stopped (.fault .numeralTooLong)) := by
  have hdigit : Stops (·.IsDigit) t := fun c hc => decide_eq_false fun h =>
    absurd (ht c hc) (by simp [numeralGoesOn, h])
  obtain ⟨r, rs, hr, -, hnumeral⟩ := numeral_takes rules verbose hne hds hdigit
  have hnil : r = [] := by
    cases hr with
    | none => rfl
    | digits => exact absurd ht (not_stops_behind hnumeral.prefix_of_took (by decide))
  subst hnil
  rw [List.append_nil] at hnumeral
  obtain ⟨b, z, rfl, hb, hz⟩ := exists_blank t
  have hnumber := number_ends hnumeral hb hz
  have hfault : Grammar.numberOf ds = .error .numeralTooLong :=
    (numberOf_digits hds).trans (Number.ofInteger_tooLong .none hne hds hlen)
  simp only [Answer.tryMap, hfault] at hnumber
  have hfactor : (Grammar.factor self).Answers rules verbose (ds ++ (b ++ z))
      (.stopped (.fault .numeralTooLong)) :=
    Answers.firstOf [] _ (by simp) (hnumber.tryMap _) (.inl (by simp))
  exact hfactor.chainLeft_stopped.chainLeft_stopped

/-- A text that is an integer with too many digits is given up by either grammar. -/
theorem parse_tooLong (verbose : Bool) (hds : Json.IsInteger ds)
    (hlen : Numeral.digitLimit < ds.length) (name : Text) :
    (Json.parser.parse Json.rules verbose (.start ds name)).result =
        .abort (.fault .numeralTooLong) ∧
      (Arith.parser.parse Arith.rules verbose (.start ds name)).result =
        .abort (.fault .numeralTooLong) := by
  obtain ⟨hne, hall⟩ := hds.areDigits
  have hunread : (Cursor.start ds name).unread = ds := Cursor.unread_start ds name
  have hopens (opens : Text) (h : ∀ x ∈ opens, ¬ x.IsDigit) :
      ∀ x ∈ (Cursor.start ds name).unread, ¬ decide (x ∈ opens) = true := by
    rw [hunread]
    exact fun x hx hmem => h x (of_decide_eq_true hmem) (hall x hx)
  constructor
  · have hanswer : Json.parser.Answers Json.rules verbose ([] ++ ([] ++ (ds ++ []))) _ :=
      Json.element_tooLong nofun .none hds hlen .nil
    simp only [List.nil_append, List.append_nil] at hanswer
    exact hanswer.result_of_not_tooDeep hunread ((Json.guarded_parser verbose).parse_not_tooDeep
      Json.guarded_rules (by decide) (hopens "[\x7b" (by decide)))
  · have hanswer : Arith.parser.Answers Arith.rules verbose (ds ++ []) _ :=
      Arith.expr_tooLong hne hall hlen .nil
    rw [List.append_nil] at hanswer
    exact hanswer.result_of_not_tooDeep hunread ((Arith.guarded_parser verbose).parse_not_tooDeep
      Arith.guarded_rules (by decide) (hopens "(" (by decide)))

theorem isInteger_ones (n : Nat) : Json.IsInteger (List.replicate (n + 1) '1') :=
  .nonZero (by decide) (by decide) fun x hx => by
    rw [List.eq_of_mem_replicate hx]
    decide

end

/-! ### The grammars -/

/-- An integer with too many digits is the one reason to give a text up. -/
theorem grammars_giveUp (verbose : Bool) (text name : Text) :
    (∀ a, Json.parser.GivesUp Json.rules verbose text name a ∨
        Arith.parser.GivesUp Arith.rules verbose text name a →
      a = .fault .numeralTooLong ∧ ¬ DigitRunsWithin Numeral.digitLimit text) ∧
    (Json.IsInteger text → Numeral.digitLimit < text.length →
      Json.parser.GivesUp Json.rules verbose text name (.fault .numeralTooLong) ∧
        Arith.parser.GivesUp Arith.rules verbose text name (.fault .numeralTooLong)) := by
  constructor
  · rintro a (h | h)
    · obtain ⟨e, rfl, he⟩ :=
        (Json.guarded_parser verbose).fault_of_givesUp Json.guarded_rules h
      exact ⟨congrArg _ he, fun hruns => (Json.element_reads rfl hruns).not_givesUp h⟩
    · obtain ⟨e, rfl, he⟩ :=
        (Arith.guarded_parser verbose).fault_of_givesUp Arith.guarded_rules h
      exact ⟨congrArg _ he, fun hruns => (Arith.expr_reads rfl hruns).not_givesUp h⟩
  · intro hinteger hlen
    obtain ⟨hjson, harith⟩ := parse_tooLong verbose hinteger hlen name
    exact ⟨Parser.givesUp_iff.2 ⟨hjson, rfl⟩, Parser.givesUp_iff.2 ⟨harith, rfl⟩⟩

theorem grammars_giveUp_ones :
    let ones : Text := List.replicate 4301 '1'
    Json.parser.GivesUp Json.rules false ones [] (.fault .numeralTooLong) ∧
      Arith.parser.GivesUp Arith.rules false ones [] (.fault .numeralTooLong) ∧
      ¬ DigitRunsWithin Numeral.digitLimit ones := by
  intro ones
  obtain ⟨hreason, hgives⟩ := grammars_giveUp false ones []
  obtain ⟨hjson, harith⟩ := hgives (isInteger_ones 4300) (by rw [List.length_replicate]; decide)
  exact ⟨hjson, harith, (hreason _ (.inl hjson)).2⟩

theorem not_read_ones :
    let ones : Text := List.replicate 4301 '1'
    let escaped : Abort := .fault .numeralTooLong
    (Json.parser.readText Json.rules false ones [] true).result = .error (.abort escaped) ∧
      (Json.parser.runText Json.rules false ones []).result = .error escaped ∧
      (Arith.parser.readText Arith.rules false ones [] true).result = .error (.abort escaped) ∧
      (Arith.parser.runText Arith.rules false ones []).result = .error escaped := by
  have hones : Json.IsInteger (List.replicate 4301 '1') := isInteger_ones 4300
  obtain ⟨hjson, harith⟩ := parse_tooLong false hones (by rw [List.length_replicate]; decide) []
  exact ⟨(Parser.readText_abort_iff true).2 ⟨hjson, rfl⟩, Parser.runText_abort_iff.2 ⟨hjson, rfl⟩,
    (Parser.readText_abort_iff true).2 ⟨harith, rfl⟩, Parser.runText_abort_iff.2 ⟨harith, rfl⟩⟩

end Descent
