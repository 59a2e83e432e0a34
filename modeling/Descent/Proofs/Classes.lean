import Descent.Proofs.Guarded
import Descent.Proofs.Json.NumberLiteral

/-!
# Repeated character classes

A repeated class takes the longest run of its characters that the text starts with, and its value is
that run (`Parser.class_runs_maximal`). Whitespace and the digits of numbers are taken so.
-/

namespace Descent

/-- A run of characters of a class, which means itself. -/
def RunOf (accepts : CodePoint → Bool) (s v : Text) : Prop :=
  (∀ x ∈ s, accepts x = true) ∧ v = s

/-- A run behind which the class does not go on is the longest one. -/
theorem isLongest_runOf {accepts : CodePoint → Bool} {s u : Text}
    (hs : ∀ x ∈ s, accepts x = true) (hu : Stops accepts u) :
    IsLongest (RunOf accepts) (s ++ u) s s where
  within := List.prefix_append s u
  meaning _ := and_iff_right hs
  longest := by
    rintro r _ ⟨u', hr⟩ ⟨hall, -⟩
    exact Stops.prefix_of_append_eq hall hu hr

namespace Cursor

/-- From `c` to `d` stands `s`, the longest run of a class that is left to read at `c`. -/
structure Spans (accepts : CodePoint → Bool) (c : Cursor) (s : Text) (d : Cursor) : Prop where
  longest : IsLongest (RunOf accepts) c.unread s s
  leads : c.Leads s d
  stops : Stops accepts d.unread

namespace Spans

variable {accepts : CodePoint → Bool} {c d d' : Cursor} {s s' u : Text}

theorem of_split (h : c.unread = s ++ u) (hs : ∀ x ∈ s, accepts x = true) (hu : Stops accepts u) :
    c.Spans accepts s (c.skip s) where
  longest := h ▸ isLongest_runOf hs hu
  leads := ⟨by rw [unread_skip h, h], rfl⟩
  stops := by rwa [unread_skip h]

theorem unique (h : c.Spans accepts s d) (h' : c.Spans accepts s' d') : s = s' ∧ d = d' := by
  obtain ⟨rfl, -⟩ := h.longest.unique h'.longest
  exact ⟨rfl, h.leads.2.trans h'.leads.2.symm⟩

end Spans
end Cursor

namespace Parser

variable {ρ : Type → Type} {rules : Rules ρ} {verbose : Bool} {accepts : CodePoint → Bool}
  {description : Text} {c d : Cursor} {v : Text}

/-- Wherever it starts, `p` takes the longest run of a class. No more than five calls nest in it. -/
def TakesRun (rules : Rules ρ) (verbose : Bool) (accepts : CodePoint → Bool) (p : Parser ρ Text) :
    Prop :=
  ∀ c, ∃ s d, c.Spans accepts s d ∧
    ∀ n, 5 ≤ n → (p.run rules verbose n c).result = .success s d

/-- Like `TakesRun`, but where no character of the class comes next `p` fails there, as the parser
of one character does. -/
def RequiresRun (rules : Rules ρ) (verbose : Bool) (accepts : CodePoint → Bool)
    (description : Text) (p : Parser ρ Text) : Prop :=
  ∀ c, ∃ s d, c.Spans accepts s d ∧ ∀ n, 5 ≤ n →
    (s ≠ [] → (p.run rules verbose n c).result = .success s d) ∧
    (s = [] → ∃ f : Failure, f = ⟨c.position, expected description c.unread⟩ ∧
      ((satisfy (ρ := ρ) accepts description).run rules verbose n c).result = .failure f ∧
      (p.run rules verbose n c).result = .failure f)

theorem takesRun_many_satisfy (accepts : CodePoint → Bool) (description : Text) :
    TakesRun rules verbose accepts (satisfy (ρ := ρ) accepts description).many := by
  intro c
  obtain ⟨s, u, ht, hs, hu⟩ := Stops.split accepts c.unread
  have hguarded : Guarded (.closed rules verbose) 3 false
      (satisfy (ρ := ρ) accepts description).many := ⟨.satisfy _ _, .satisfy _ _⟩
  have hmany : (satisfy (ρ := ρ) accepts description).many.Answers rules verbose c.unread
      (.took s s) := ht ▸ .many_satisfy hs hu
  exact ⟨s, c.skip s, .of_split ht hs hu, fun n hn => hguarded.result_of_answers (by omega) hmany⟩

theorem requiresRun_some_satisfy (accepts : CodePoint → Bool) (description : Text) :
    RequiresRun rules verbose accepts description (satisfy (ρ := ρ) accepts description).some := by
  intro c
  obtain ⟨s, u, ht, hs, hu⟩ := Stops.split accepts c.unread
  have hguarded : Guarded (.closed rules verbose) 5 false
      (satisfy (ρ := ρ) accepts description).some := Guarded.some (.satisfy _ _) (.satisfy _ _)
  refine ⟨s, c.skip s, .of_split ht hs hu, fun n hn => ⟨fun hne => ?_, ?_⟩⟩
  · have hsome : (satisfy (ρ := ρ) accepts description).some.Answers rules verbose c.unread
        (.took s s) := ht ▸ .some_satisfy hne hs hu
    exact hguarded.result_of_answers hn hsome
  · rintro rfl
    have hmissed : (satisfy (ρ := ρ) accepts description).Answers rules verbose c.unread
        (.missed [] (expected description c.unread)) := .satisfy_missed (ht ▸ hu)
    have hone : Guarded (.closed rules verbose) 2 false (satisfy (ρ := ρ) accepts description) :=
      .satisfy _ _
    exact ⟨_, rfl, hone.result_of_answers (by omega) hmissed,
      hguarded.result_of_answers hn hmissed.bind_missed⟩

/-- Where it succeeds, the value is the longest run, and not empty. -/
theorem RequiresRun.spans {p : Parser ρ Text} (hp : RequiresRun rules verbose accepts description p)
    (h : p.Succeeds rules verbose c v d) : v ≠ [] ∧ c.Spans accepts v d := by
  obtain ⟨s, e, hspans, hrun⟩ := hp c
  obtain ⟨n, hn⟩ := h
  obtain ⟨hsome, hnone⟩ := hrun (max n 5) (Nat.le_max_right n 5)
  have hdeep : ¬ (p.run rules verbose n c).TooDeep := fun hdeep => nomatch hn.symm.trans hdeep
  rw [run_of_le (Nat.le_max_left n 5) hdeep, hn] at hsome hnone
  by_cases hs : s = []
  · obtain ⟨f, -, -, hf⟩ := hnone hs
    exact nomatch hf
  · cases hsome hs
    exact ⟨hs, hspans⟩

theorem Succeeds.of_char {x y : CodePoint} (h : (char (ρ := ρ) x).Succeeds rules verbose c y d) :
    y = x ∧ c.Leads [x] d := by
  obtain ⟨s, hy, hs⟩ := h.took
  obtain ⟨rfl, rfl⟩ := (Reads.char x c.unread).sound hy
  exact ⟨rfl, hs⟩

end Parser

namespace Json

open Descent.Parser

variable {ρ : Type → Type} {rules : Rules ρ} {verbose : Bool} {c d : Cursor} {v : Text}

/-- The digits in the parts of a number are the longest runs where they stand: from the first digit
of an integer on, unless it is 0, behind a point, and behind a mark with its sign. -/
structure TakesDigits (rules : Rules ρ) (verbose : Bool) : Prop where
  integer : ∀ c v d, (Grammar.integerPart (ρ := ρ)).Succeeds rules verbose c v d →
    v = ['0'] ∧ c.Leads ['0'] d ∨ v ≠ [] ∧ c.Spans (·.IsDigit) v d
  fraction : ∀ c v d, (Grammar.fraction (ρ := ρ)).Succeeds rules verbose c v d →
    ∃ s e, v = ('.' : CodePoint) :: s ∧ c.Leads ['.'] e ∧ s ≠ [] ∧ e.Spans (·.IsDigit) s d
  exponent : ∀ c v d, (Grammar.exponent (ρ := ρ)).Succeeds rules verbose c v d →
    ∃ mark sign s e, v = ('e' : CodePoint) :: (sign ++ s) ∧ c.Leads (mark :: sign) e ∧ s ≠ [] ∧
      e.Spans (·.IsDigit) s d

theorem integerPart_spans (h : (Grammar.integerPart (ρ := ρ)).Succeeds rules verbose c v d) :
    v = ['0'] ∧ c.Leads ['0'] d ∨ v ≠ [] ∧ c.Spans (·.IsDigit) v d := by
  obtain ⟨s, hv, hlead⟩ := h.took
  obtain ⟨rfl, hinteger⟩ := (integerPart_reads c.unread).sound hv
  cases hinteger with
  | zero => exact .inl ⟨rfl, hlead⟩
  | @nonZero x ds hx hne hds =>
    obtain ⟨ds', u, hu, hds', hstops⟩ := exists_digits (ds ++ d.unread)
    have htext : c.unread = x :: (ds' ++ u) := hlead.1.trans (congrArg (x :: ·) hu)
    have hall : ∀ y ∈ x :: ds', decide y.IsDigit = true :=
      List.forall_mem_cons.2 ⟨decide_eq_true hx, fun y hy => decide_eq_true (hds' y hy)⟩
    have hspans := Cursor.Spans.of_split (s := x :: ds') htext hall hstops
    -- The part has one answer, so it took all of these digits.
    rw [htext] at hv
    cases hv.unique (integerPart_nonZero hx hne hds' hstops)
    exact .inr ⟨List.cons_ne_nil x ds, hlead.2 ▸ hspans⟩

theorem fraction_spans (h : (Grammar.fraction (ρ := ρ)).Succeeds rules verbose c v d) :
    ∃ s e, v = ('.' : CodePoint) :: s ∧ c.Leads ['.'] e ∧ s ≠ [] ∧ e.Spans (·.IsDigit) s d := by
  obtain ⟨x, e, hx, h⟩ := h.of_bind
  obtain ⟨s, hs, hv⟩ := h.of_tryMap
  obtain ⟨-, hlead⟩ := hx.of_char
  exact ⟨s, e, (Except.ok.inj hv).symm, hlead, (requiresRun_some_satisfy _ _).spans hs⟩

theorem exponent_spans (h : (Grammar.exponent (ρ := ρ)).Succeeds rules verbose c v d) :
    ∃ mark sign s e, v = ('e' : CodePoint) :: (sign ++ s) ∧ c.Leads (mark :: sign) e ∧ s ≠ [] ∧
      e.Spans (·.IsDigit) s d := by
  obtain ⟨x, e, hx, h⟩ := h.of_bind
  obtain ⟨sign, e', hsign, h⟩ := h.of_bind
  obtain ⟨s, hs, hv⟩ := h.of_tryMap
  obtain ⟨mark, hmark⟩ : ∃ mark, c.Leads [mark] e := by
    rcases hx.of_orElse with hx | hx
    · exact ⟨'e', hx.of_char.2⟩
    · exact ⟨'E', hx.of_char.2⟩
  obtain ⟨r, hr, hlead⟩ := hsign.took
  obtain ⟨rfl, -⟩ := (exponentSign_reads e.unread).sound hr
  exact ⟨mark, sign, s, e', (Except.ok.inj hv).symm, hmark.trans hlead,
    (requiresRun_some_satisfy _ _).spans hs⟩

end Json

namespace Parser

variable {ρ : Type → Type}

/-- A class that is repeated takes its longest run, character by character, and one that is required
at least once fails where it has none. So do whitespace, digits, and the digits in the parts of JSON
numbers. -/
theorem class_runs_maximal (rules : Rules ρ) (verbose : Bool) :
    (∀ accepts description,
      TakesRun rules verbose accepts (satisfy (ρ := ρ) accepts description).many ∧
      RequiresRun rules verbose accepts description (satisfy (ρ := ρ) accepts description).some) ∧
    TakesRun rules verbose (· ∈ blanks) (whitespaces (ρ := ρ)) ∧
    TakesRun rules verbose (·.IsDigit) (digit (ρ := ρ)).many ∧
    RequiresRun rules verbose (·.IsDigit) "a digit" (digits (ρ := ρ)) ∧
    Json.TakesDigits rules verbose :=
  ⟨fun _ _ => ⟨takesRun_many_satisfy _ _, requiresRun_some_satisfy _ _⟩,
    takesRun_many_satisfy _ _, takesRun_many_satisfy _ _, requiresRun_some_satisfy _ _,
    ⟨fun _ _ _ => Json.integerPart_spans, fun _ _ _ => Json.fraction_spans,
      fun _ _ _ => Json.exponent_spans⟩⟩

/-- Whitespace over two lines, the digits behind it up to the end of the text, and no digits in
front of it. -/
theorem class_runs_maximal_lines :
    let rules : Rules fun _ => Empty := fun _ r => r.elim
    let c : Cursor := .start " \n 42" []
    let d : Cursor := ⟨c.text, 3, ⟨2, 2, []⟩⟩
    let e : Cursor := ⟨c.text, 5, ⟨2, 4, []⟩⟩
    5 ≤ nestingLimit ∧
      c.Spans (· ∈ blanks) " \n " d ∧ d.Spans (·.IsDigit) "42" e ∧
      (whitespaces.parse rules true c).result = .success " \n " d ∧
      (digits.parse rules true d).result = .success "42" e ∧
      (digits.parse rules true c).result =
        .failure ⟨⟨1, 1, []⟩, "Expected a digit, but got  "⟩ := by
  intro rules c d e
  have hlimit : 5 ≤ nestingLimit := by decide
  obtain ⟨-, hblank, -, hdigits, -⟩ := class_runs_maximal rules true
  have hcd : c.Spans (· ∈ blanks) " \n " d :=
    .of_split (u := "42") rfl (by decide) (Stops.cons_iff.2 (by decide))
  have hde : d.Spans (·.IsDigit) "42" e := .of_split (u := []) rfl (by decide) nofun
  have hcc : c.Spans (·.IsDigit) [] c :=
    .of_split (u := " \n 42") rfl nofun (Stops.cons_iff.2 (by decide))
  obtain ⟨s, d', hs, hblank⟩ := hblank c
  obtain ⟨rfl, rfl⟩ := hs.unique hcd
  obtain ⟨s', e', hs', hsome⟩ := hdigits d
  obtain ⟨rfl, rfl⟩ := hs'.unique hde
  obtain ⟨r, c', hr, hnone⟩ := hdigits c
  obtain ⟨rfl, rfl⟩ := hr.unique hcc
  obtain ⟨f, rfl, -, hf⟩ := (hnone nestingLimit hlimit).2 rfl
  exact ⟨hlimit, hcd, hde, hblank nestingLimit hlimit,
    (hsome nestingLimit hlimit).1 (by decide), hf⟩

end Parser
end Descent
