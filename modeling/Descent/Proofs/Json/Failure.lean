import Descent.Proofs.Json.Completeness

/-!
# Where the JSON parser fails

The alternatives of a value are tried in order and the failure of the last one stands, whatever the
others had read: a text fails as an object does. An object fails at its opening brace, or at the
closing one behind all the members that can be read (`parser_fails`), since a list of members never
fails behind its first one.
-/

namespace Descent

/-- A failure can be told from another one whatever the values are. -/
instance {α : Type} : (o : Outcome α) → (f : Failure) → Decidable (o = .failure f)
  | .failure g, f => decidable_of_iff (g = f) ⟨congrArg _, Outcome.failure.inj⟩
  | .success _ _, _ => .isFalse (by simp)
  | .abort _, _ => .isFalse (by simp)

namespace Json

open Descent.Parser

variable {ρ : Type → Type} {rules : Rules ρ} {verbose : Bool} {self : ρ Json} {t : Text}

/-! ### Lists in brackets -/

/-- How far a list goes in `b ++ u`: `b` is the longest one that stands there, or the whitespace if
there is none. -/
def ListEnds {α : Type} (L : Text → α → Prop) (b u : Text) : Prop :=
  ((∃ vs, SepBy L ',' b vs) ∧ ∀ s vs, s <+: b ++ u → SepBy L ',' s vs → s <+: b) ∨
    ((∀ s vs, s <+: b ++ u → ¬ SepBy L ',' s vs) ∧ AreBlank b ∧ Stops (· ∈ blanks) u)

section
variable {α : Type} {p : Parser ρ α} {L : Text → α → Prop} {C : CodePoint → Bool}
  (hreads : ∀ s u, t = s ++ u → p.Reads rules verbose L u)
  (hcovers : ∀ s u, t = s ++ u → p.Covers rules verbose L C u) (hC : C ',' = false)
include hreads hcovers hC

/-- What stands between brackets never fails. -/
theorem items_taken : ∃ vs b u, t = b ++ u ∧ ListEnds L b u ∧
    ((p.sepBySome (char ',')).orElse (whitespaces.map fun _ => [])).Answers rules verbose t
      (.took vs b) := by
  have hword : ∀ s vs, s <+: t → SepBy L ',' s vs → ∃ ws r,
      (p.sepBySome (char ',')).Answers rules verbose t (.took ws r) ∧ s <+: r := by
    rintro s vs ⟨u, rfl⟩ hs
    exact hs.taken hC hreads hcovers
  cases Reads.sepBySome ',' hreads with
  | @took vs b u ht hL h =>
    subst ht
    refine ⟨vs, b, u, rfl, .inl ⟨⟨vs, hL⟩, fun s vs hs hw => ?_⟩, h.orElse nofun⟩
    obtain ⟨ws, r, hr, hsr⟩ := hword s vs hs hw
    cases hr.unique h
    exact hsr
  | missed h =>
    obtain ⟨b, u, rfl, hb, hu⟩ := exists_blank t
    refine ⟨[], b, u, rfl, .inr ⟨fun s vs hs hw => ?_, hb, hu⟩,
      .orElse_missed h ((Answers.whitespaces hb hu).map _)⟩
    obtain ⟨ws, r, hr, -⟩ := hword s vs hs hw
    exact hr.not_misses h

end

/-- A list in brackets is taken, or its opening bracket is missing, or its closing one is. -/
theorem bracketed_ends {α : Type} {p : Parser ρ α} {L : Text → α → Prop} {C : CodePoint → Bool}
    (opening closing : CodePoint)
    (hreads : ∀ s u, t = s ++ u → p.Reads rules verbose L u)
    (hcovers : ∀ s u, t = s ++ u → p.Covers rules verbose L C u) (hC : C ',' = false) :
    ∃ a, (between (char opening) (char closing)
      ((p.sepBySome (char ',')).orElse (whitespaces.map fun _ => []))).Answers rules verbose t a ∧
      ((∃ vs s, a = .took vs s) ∨
        opening ∉ t.head? ∧ a = .missed [] (expected [opening] t) ∨
        ∃ b u, t = opening :: (b ++ u) ∧ ListEnds L b u ∧ closing ∉ u.head? ∧
          a = .missed (opening :: b) (expected [closing] u)) := by
  by_cases hopening : opening ∈ t.head?
  · obtain ⟨x, rfl⟩ := List.head?_eq_some_iff.1 hopening
    obtain ⟨vs, b, u, rfl, hends, hitems⟩ := items_taken (t := x)
      (fun s u hx => hreads (opening :: s) u (by rw [hx]; rfl))
      (fun s u hx => hcovers (opening :: s) u (by rw [hx]; rfl)) hC
    by_cases hclosing : closing ∈ u.head?
    · obtain ⟨y, rfl⟩ := List.head?_eq_some_iff.1 hclosing
      exact ⟨_, Answers.between (s := [opening]) (w := [closing]) (.char opening _) hitems
        (.char closing y), .inl ⟨vs, _, rfl⟩⟩
    · refine ⟨_, (Answers.char opening (b ++ u)).bind (s := [opening])
        (hitems.bind (Answers.char_missed hclosing).bind_missed), .inr (.inr ?_)⟩
      exact ⟨b, u, rfl, hends, hclosing, by simp [Answer.behind]⟩
  · exact ⟨_, (Answers.char_missed hopening).bind_missed, .inr (.inl ⟨hopening, rfl⟩)⟩

/-! ### Values -/

/-- What lies in front of the failure of a text that starts with no value, and its message. -/
inductive FailsBehind (t : Text) : Text → Text → Prop where
  | opening (h : ('{' : CodePoint) ∉ t.head?) : FailsBehind t [] (expected ['{'] t)
  | closing {b u : Text} (ht : t = ('{' : CodePoint) :: (b ++ u)) (hends : ListEnds IsMember b u)
      (h : ('}' : CodePoint) ∉ u.head?) : FailsBehind t ('{' :: b) (expected ['}'] u)

section
variable (hself : rules _ self = Grammar.element self)
  (hruns : DigitRunsWithin Numeral.digitLimit t)
include hself hruns

theorem nested_reads : Nested ((Parser.ref self).Reads rules verbose IsElement) t := by
  rintro s u rfl -
  exact .ref (hself ▸ element_reads hself hruns.right)

theorem nested_covers :
    Nested ((Parser.ref self).Covers rules verbose IsElement elementGoesOn) t := by
  rintro s u rfl -
  exact .ref (hself ▸ element_covers hself hruns.right)

theorem object_fails (h : ((Grammar.object self).map Json.object).Misses rules verbose t) :
    ∃ s message, FailsBehind t s message ∧
      ((Grammar.object self).map Json.object).Answers rules verbose t (.missed s message) := by
  have hmember : ∀ s u, t = s ++ u → (Grammar.member self).Reads rules verbose IsMember u := by
    rintro s u rfl
    exact member_reads (nested_reads hself hruns.right)
  have hcovers : ∀ s u, t = s ++ u →
      (Grammar.member self).Covers rules verbose IsMember elementGoesOn u := by
    rintro s u rfl
    exact member_covers (nested_covers hself hruns.right)
  obtain ⟨a, ha, hends⟩ := bracketed_ends '{' '}' hmember hcovers (by decide)
  have hobject := (ha.tryMap fun es => .ok (Dictionary.ofEntries es)).tryMap fun d =>
    .ok (Json.object d)
  rcases hends with ⟨vs, s, rfl⟩ | ⟨hopening, rfl⟩ | ⟨b, u, ht, hends, hclosing, rfl⟩
  · exact absurd h hobject.not_misses
  · exact ⟨_, _, .opening hopening, hobject⟩
  · exact ⟨_, _, .closing ht hends hclosing, hobject⟩

/-- Where no kind of value is read, the failure of the last one stands. -/
theorem value_fails (h : (Grammar.value self).Misses rules verbose t) :
    ∃ s message, FailsBehind t s message ∧
      (Grammar.value self).Answers rules verbose t (.missed s message) := by
  have hmisses : ∀ p ∈ alternatives self, p.Misses rules verbose t :=
    Reads.misses_of_firstOf [] (alternatives_read (nested_reads hself hruns) hruns) nofun h
  obtain ⟨s, message, hfails, hobject⟩ :=
    object_fails hself hruns (hmisses _ (List.getLast_mem (List.cons_ne_nil _ _)))
  refine ⟨s, message, hfails, Answers.firstOf ((alternatives self).take 5) [] (fun q hq => ?_)
    hobject (.inr rfl)⟩
  exact hmisses q (List.mem_of_mem_take hq)

theorem element_fails (h : (Grammar.element self).Misses rules verbose t) :
    ∃ w u s message, t = w ++ u ∧ AreBlank w ∧ Stops (· ∈ blanks) u ∧ FailsBehind u s message ∧
      (Grammar.element self).Answers rules verbose t (.missed (w ++ s) message) := by
  obtain ⟨w, u, rfl, hw, hu⟩ := exists_blank t
  have hblank : (whitespaces (ρ := ρ)).Answers rules verbose (w ++ u) (.took w w) :=
    .whitespaces hw hu
  cases value_reads (nested_reads hself hruns.right) hruns.right with
  | @took v s x hx hv hvalue =>
    subst hx
    obtain ⟨w', y, rfl, hw', hy⟩ := exists_blank x
    exact absurd h (Answers.between hblank hvalue (.whitespaces hw' hy)).not_misses
  | missed hvalue =>
    obtain ⟨s, message, hfails, hvalue⟩ := value_fails hself hruns.right hvalue
    exact ⟨w, u, s, message, rfl, hw, hu, hfails, hblank.bind (k := fun _ => _) hvalue.bind_missed⟩

end

/-! ### The grammar as a whole -/

/-- The parser of JSON fails in front of the first character that is no whitespace, if that is no
opening brace, and else in front of what should be the closing one. -/
theorem parser_fails (verbose : Bool) (c : Cursor)
    (hruns : DigitRunsWithin Numeral.digitLimit c.unread) {n : Nat} {f : Failure}
    (h : (parser.run Json.rules verbose n c).result = .failure f) :
    ∃ w t s message, c.unread = w ++ t ∧ AreBlank w ∧ Stops (· ∈ blanks) t ∧
      FailsBehind t s message ∧ f = ⟨(c.skip (w ++ s)).position, message⟩ := by
  have hdeep : ¬ (parser.run Json.rules verbose n c).TooDeep := fun hdeep =>
    nomatch h.symm.trans hdeep
  have hanswer {a : Answer Json} (ha : parser.Answers Json.rules verbose c.unread a) :
      a.outcome c = .failure f := (ha.result_of_not_tooDeep rfl hdeep).symm.trans h
  have hreads : parser.Reads Json.rules verbose IsElement c.unread := element_reads rfl hruns
  cases hreads with
  | took ht hL hv => exact nomatch hanswer hv
  | missed hmiss =>
    obtain ⟨w, t, s, message, ht, hw, hstops, hfails, ha⟩ := element_fails rfl hruns hmiss
    exact ⟨w, t, s, message, ht, hw, hstops, hfails, (Outcome.failure.inj (hanswer ha)).symm⟩

theorem parser_fails_behind_first_member :
    let members : Text := "\"a\" : 1, \"b\": [2,\x7d"
    let c : Cursor := .start (" \x7b" ++ members) []
    DigitRunsWithin Numeral.digitLimit c.unread ∧
      (parser.run Json.rules false nestingLimit c).result =
        .failure ⟨(c.skip " \x7b\"a\" : 1").position, "Expected \x7d, but got ,"⟩ ∧
      ∀ s es, s <+: members → SepBy IsMember ',' s es → s <+: ("\"a\" : 1" : Text) := by
  intro members c
  have hruns : DigitRunsWithin Numeral.digitLimit c.unread := .of_length_le (by decide +kernel)
  have hresult : (parser.run Json.rules false nestingLimit c).result =
      .failure ⟨(c.skip " \x7b\"a\" : 1").position, "Expected \x7d, but got ,"⟩ := by decide +kernel
  refine ⟨hruns, hresult, ?_⟩
  obtain ⟨w, t, s, message, ht, hw, hstops, hfails, hf⟩ := parser_fails false c hruns hresult
  have hblank : ∀ x ∈ w, decide (x ∈ blanks) = true := fun x hx => decide_eq_true (hw x hx)
  obtain ⟨rfl, rfl⟩ : w = " " ∧ t = ('{' : CodePoint) :: members :=
    Stops.append_inj (by decide) hblank (Stops.cons_iff.2 (by decide)) hstops ht.symm
  cases hfails with
  | opening h => exact absurd rfl h
  | @closing b u hbu hends h =>
    have hmembers : members = b ++ u := (List.cons.inj hbu).2
    have hbehind : (" \x7b" : Text) ++ b <+: " \x7b" ++ members := by
      rw [hmembers, ← List.append_assoc]
      exact List.prefix_append _ u
    have hposition : (" \x7b" : Text) ++ b = " \x7b" ++ "\"a\" : 1" :=
      Position.updateAll_inj hbehind (by decide) (Failure.mk.inj hf).1.symm
    obtain rfl := List.append_cancel_left hposition
    rcases hends with ⟨-, hlongest⟩ | ⟨-, hb, -⟩
    · rwa [← hmembers] at hlongest
    · exact absurd (hb '"' (by decide)) (by decide)

end Json
end Descent
