import Descent.Proofs.Lexeme
import Descent.Proofs.Outcomes
import Mathlib.Order.Bounds.Defs

/-!
# Exact literals

`string s` takes `s` off the front of a text or fails, at the first character that differs
(`Parser.literals_exact`). A token does the same, and takes the whitespace behind it along.
-/

namespace Descent
namespace Parser

variable {ρ : Type → Type} {rules : Rules ρ} {verbose : Bool}

/-- In front of a text that starts with `s`, the parser takes `s` and, of what is behind it, the part
that `behind` gives. In front of any other it fails where the first character differs or is missing,
and tells which character was expected there. -/
def IsLiteral (rules : Rules ρ) (verbose : Bool) (s : Text) (behind : Text → Text)
    (p : Parser ρ Text) : Prop :=
  ∀ c, ((∃ v d, p.Succeeds rules verbose c v d) ↔ s <+: c.unread) ∧
    (∀ t, c.unread = s ++ t → p.EndsIn rules verbose c (.success s (c.skip (s ++ behind t)))) ∧
    (¬ s <+: c.unread → ∃ i x, IsLeast {i | i < s.length ∧ c.unread[i]? ≠ s[i]?} i ∧
      s[i]? = Option.some x ∧ p.EndsIn rules verbose c
        (.failure ⟨c.position.updateAll (s.take i), expected [x] (c.unread.drop i)⟩))

theorem isLeast_mismatch {x : CodePoint} {t : Text} (s v : Text) (h : x ∉ t.head?) :
    IsLeast {i | i < (s ++ x :: v).length ∧ (s ++ t)[i]? ≠ (s ++ x :: v)[i]?} s.length := by
  constructor
  · refine ⟨by simp, fun heq => h ?_⟩
    rw [List.getElem?_append_right (Nat.le_refl _), List.getElem?_append_right (Nat.le_refl _),
      Nat.sub_self, ← List.head?_eq_getElem?] at heq
    exact heq
  · rintro i ⟨-, hi⟩
    refine Nat.le_of_not_lt fun hlt => hi ?_
    rw [List.getElem?_append_left hlt, List.getElem?_append_left hlt]

/-- It is enough to know the two answers. -/
theorem IsLiteral.of_answers {s : Text} {behind : Text → Text} {p : Parser ρ Text}
    (htook : ∀ t, p.Answers rules verbose (s ++ t) (.took s (s ++ behind t)))
    (hmissed : ∀ v x w t, s = v ++ x :: w → x ∉ t.head? →
      p.Answers rules verbose (v ++ t) (.missed v (expected [x] t))) :
    IsLiteral rules verbose s behind p := by
  intro c
  have hends (t : Text) (ht : c.unread = s ++ t) :
      p.EndsIn rules verbose c (.success s (c.skip (s ++ behind t))) := (htook t).endsIn ht
  have hfails (hs : ¬ s <+: c.unread) : ∃ i x,
      IsLeast {i | i < s.length ∧ c.unread[i]? ≠ s[i]?} i ∧ s[i]? = Option.some x ∧
        p.EndsIn rules verbose c
          (.failure ⟨c.position.updateAll (s.take i), expected [x] (c.unread.drop i)⟩) := by
    obtain ⟨v, x, w, t, rfl, ht, hx⟩ := exists_mismatch hs
    refine ⟨v.length, x, ht ▸ isLeast_mismatch v w hx, by simp, ?_⟩
    rw [List.take_left, ht, List.drop_left]
    exact (hmissed v x w t rfl hx).endsIn ht
  refine ⟨⟨?_, ?_⟩, hends, hfails⟩
  · rintro ⟨v, d, hv⟩
    by_contra hs
    obtain ⟨i, x, -, -, hf⟩ := hfails hs
    exact absurd ((succeeds_iff_endsIn.1 hv).unique hf) (by simp)
  · rintro ⟨t, ht⟩
    exact ⟨s, _, succeeds_iff_endsIn.2 (hends t ht.symm)⟩

theorem isLiteral_string (s : Text) :
    IsLiteral rules verbose s (fun _ => []) (string (ρ := ρ) s) := by
  refine .of_answers (fun t => ?_) ?_
  · rw [List.append_nil]
    exact .string s t
  · rintro v x w t rfl hx
    exact .string_missed v w hx

theorem isLiteral_token_string (s : Text) :
    IsLiteral rules verbose s (List.takeWhile (· ∈ blanks)) (token (string (ρ := ρ) s)) := by
  refine .of_answers (fun t => ?_) ?_
  · exact (Answers.string s t).bind (k := fun v => Parser.whitespaces.map fun _ => v)
      ((Answers.many_satisfy_takeWhile t).map _)
  · rintro v x w t rfl hx
    exact (Answers.string_missed v w hx).bind_missed

/-- A literal is taken whole or fails at its first mismatch, and so is a token, which takes the
whitespace behind it along. -/
theorem literals_exact (rules : Rules ρ) (verbose : Bool) (s : Text) :
    IsLiteral rules verbose s (fun _ => []) (string (ρ := ρ) s) ∧
      IsLiteral rules verbose s (List.takeWhile (· ∈ blanks)) (token (string (ρ := ρ) s)) ∧
      IsLiteral rules verbose s (List.takeWhile (· ∈ blanks)) (symbol (ρ := ρ) s) :=
  ⟨isLiteral_string s, isLiteral_token_string s, isLiteral_token_string s⟩

/-- A literal over two lines with whitespace behind it; and a mismatch and the end of the text on
the second line. -/
theorem literals_exact_lines :
    let rules : Rules fun _ => Empty := fun _ r => r.elim
    let s : Text := "a\nbc"
    let c : Cursor := .start "a\nbc \n\td" []
    let c' : Cursor := .start "a\nbd" []
    let c'' : Cursor := .start "a\nb" []
    (string s).EndsIn rules true c (.success s ⟨c.text, 4, ⟨2, 3, []⟩⟩) ∧
      (symbol s).EndsIn rules true c (.success s ⟨c.text, 7, ⟨3, 2, []⟩⟩) ∧
      IsLeast {i | i < s.length ∧ c'.unread[i]? ≠ s[i]?} 3 ∧
      (string s).EndsIn rules true c' (.failure ⟨⟨2, 2, []⟩, "Expected c, but got d"⟩) ∧
      (symbol s).EndsIn rules true c''
        (.failure ⟨⟨2, 2, []⟩, "Expected c, but reached the end of input"⟩) := by
  intro rules s c c' c''
  obtain ⟨hstring, -, hsymbol⟩ := literals_exact rules true s
  have hshown : s[3]? = Option.some ('c' : CodePoint) := by decide +kernel
  obtain ⟨i, x, hi, hx, hf⟩ := (hstring c').2.2 (by decide +kernel)
  obtain rfl : i = 3 := (by decide +kernel : ∀ i < s.length, c'.unread[i]? ≠ s[i]? → i = 3) i
    hi.1.1 hi.1.2
  obtain rfl := Option.some.inj (hx.symm.trans hshown)
  obtain ⟨j, y, hj, hy, hg⟩ := (hsymbol c'').2.2 (by decide +kernel)
  obtain rfl : j = 3 := (by decide +kernel : ∀ j < s.length, c''.unread[j]? ≠ s[j]? → j = 3) j
    hj.1.1 hj.1.2
  obtain rfl := Option.some.inj (hy.symm.trans hshown)
  exact ⟨(hstring c).2.1 " \n\td" rfl, (hsymbol c).2.1 " \n\td" rfl, hi, hf, hg⟩

end Parser
end Descent
