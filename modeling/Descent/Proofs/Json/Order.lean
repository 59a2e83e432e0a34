import Descent.Proofs.Json.Failure
import Descent.Proofs.Replacement
import Descent.Proofs.Termination

/-!
# The order of the kinds of JSON values

Every kind of value starts with characters of its own, so that at each place no more than one of the
alternatives comes to anything but a failure. Their order therefore matters only for what failures
say (`order_irrelevant`).
-/

namespace Descent
namespace Json

open Descent.Parser

variable {ρ : Type → Type} {rules : Rules ρ} {verbose : Bool} {self : ρ Json} {c : Cursor}

/-! ### Grammars with the alternatives in some order -/

/-- A value that is one of some alternatives, with whitespace on both sides. -/
def elementOf (ps : List (Parser ρ Json)) : Parser ρ Json :=
  between whitespaces whitespaces (firstOf ps)

/-- The grammar whose values are those of some alternatives, at every level. -/
def rulesOf (ps : List (Parser Rule Json)) : Rules Rule
  | _, .element => elementOf ps

theorem elementOf_alternatives (self : ρ Json) :
    elementOf (alternatives self) = Grammar.element self := rfl

/-! ### Alternatives exclude each other -/

theorem firsts_disjoint : firsts.Pairwise fun C D => ∀ x, C x = false ∨ D x = false := by
  suffices ∀ x, (firsts.map (· x)).Pairwise fun a b => a = false ∨ b = false by
    simp only [List.pairwise_map] at this
    exact List.pairwise_iff_getElem.2 fun i j hi hj hij x =>
      List.pairwise_iff_getElem.1 (this x) i j hi hj hij
  intro x
  by_cases hx : x ∈ ("ntf\"-[\x7b" : Text)
  · exact (by decide : ∀ x ∈ ("ntf\"-[\x7b" : Text),
      (firsts.map (· x)).Pairwise fun a b => a = false ∨ b = false) x hx
  · -- A character that is not named can only be a digit.
    have hother : ∀ y ∈ ("ntf\"-[\x7b" : Text), decide (x = y) = false :=
      fun y hy => decide_eq_false fun hxy => hx (hxy ▸ hy)
    simp only [firsts, List.map_cons, List.map_nil, hother 'n' (by decide), hother 't' (by decide),
      hother 'f' (by decide), hother '"' (by decide), hother '[' (by decide),
      hother '{' (by decide)]
    simp

theorem alternatives_exclusive (rules : Rules ρ) (verbose : Bool) (c : Cursor) :
    (alternatives self).Pairwise fun p q => p.Fails rules verbose c ∨ q.Fails rules verbose c :=
  (pairwise_misses alternatives_start firsts_disjoint c.unread).imp
    (Or.imp (·.fails rfl) (·.fails rfl))

/-- In whatever order the alternatives are tried, a value ends in the same way. -/
theorem elementOf_endsLike {ps qs : List (Parser ρ Json)} (hps : ps.Perm (alternatives self))
    (hqs : qs.Perm (alternatives self)) (c : Cursor) :
    EndsLike rules rules verbose c (elementOf ps) (elementOf qs) := by
  refine (EndsLike.refl whitespaces c).bind fun _ d => EndsLike.bind ?_ fun v e => .refl _ e
  refine .firstOf_perm (hps.trans hqs.symm) ?_
  exact (hps.pairwise_iff Or.symm).2 (alternatives_exclusive rules verbose d)

theorem parser_endsLike {ps qs : List (Parser Rule Json)} (hps : ps.Perm (alternatives .element))
    (hqs : qs.Perm (alternatives .element)) (verbose : Bool) (c : Cursor) :
    EndsLike (rulesOf ps) (rulesOf qs) verbose c (elementOf ps) (elementOf qs) := by
  have hrules {α : Type} (r : Rule α) (c : Cursor) :
      EndsLike (rulesOf qs) (rulesOf qs) verbose c (rulesOf ps _ r) (rulesOf qs _ r) := by
    cases r
    exact elementOf_endsLike hps hqs c
  exact (endsLike_of_rules hrules (elementOf ps) c).trans (elementOf_endsLike hps hqs c)

theorem rulesOf_alternatives : rulesOf (alternatives Rule.element) = Json.rules := by
  funext α r
  cases r
  exact elementOf_alternatives Rule.element

/-! ### The grammar as a whole -/

/-- Only a numeral with too many digits stops the parser. -/
theorem parser_aborts {a : Abort} (h : parser.Aborts Json.rules verbose c a) :
    a = .fault .numeralTooLong ∧ ¬ DigitRunsWithin Numeral.digitLimit c.unread := by
  obtain ⟨ha, n, hn⟩ := h
  have hdeep : ¬ (parser.run Json.rules verbose n c).TooDeep := fun hdeep =>
    ha (Outcome.abort.inj (hn.symm.trans hdeep))
  constructor
  · have hends := (Json.guarded_parser verbose).ends Json.guarded_rules (c := c) (Nat.le_refl _)
    have hsame := Reaches.unique ⟨hdeep, n, rfl⟩ ⟨hends.not_tooDeep, _, rfl⟩
    rw [← hsame] at hends
    obtain ⟨e, rfl, he⟩ := hends a hn
    exact congrArg _ he
  · intro hruns
    have hlongest : parser.ReadsLongest Json.rules verbose IsElement c.unread :=
      element_readsLongest rfl hruns
    obtain ⟨r, hr, hrec⟩ := hlongest.reaches rfl
    refine hrec.ne_abort a ?_
    rw [hr.unique ⟨hdeep, n, rfl⟩]
    exact hn

/-- Of the alternatives of a value all but one fail, wherever they are tried. The grammar with them
in another order, at every level, succeeds with the same value at the same place, fails at the same
places, and stops at the same numerals that are too long. -/
theorem order_irrelevant (verbose : Bool) {ps : List (Parser Rule Json)}
    (hps : ps.Perm (alternatives .element)) (c : Cursor) :
    ((alternatives Rule.element).Pairwise fun p q =>
      p.Fails Json.rules verbose c ∨ q.Fails Json.rules verbose c) ∧
    (∀ v d, (elementOf ps).Succeeds (rulesOf ps) verbose c v d ↔
      parser.Succeeds Json.rules verbose c v d) ∧
    ((elementOf ps).Fails (rulesOf ps) verbose c ↔ parser.Fails Json.rules verbose c) ∧
    (∀ a, (elementOf ps).Aborts (rulesOf ps) verbose c a ↔ parser.Aborts Json.rules verbose c a) ∧
    ∀ a, parser.Aborts Json.rules verbose c a →
      a = .fault .numeralTooLong ∧ ¬ DigitRunsWithin Numeral.digitLimit c.unread := by
  have hleft := parser_endsLike hps (.refl _) verbose c
  have hright := parser_endsLike (.refl _) hps verbose c
  rw [rulesOf_alternatives] at hleft hright
  exact ⟨alternatives_exclusive Json.rules verbose c, fun v d => ⟨hleft.succeeds, hright.succeeds⟩,
    ⟨hleft.fails, hright.fails⟩, fun a => ⟨hleft.aborts, hright.aborts⟩, fun a => parser_aborts⟩

/-- The last alternative is the null literal now, so that the message is another one. -/
theorem order_irrelevant_reversed :
    let ps := (alternatives Rule.element).reverse
    let c : Cursor := .start "[0]" []
    let d : Cursor := .start "[x]" []
    ps.Perm (alternatives .element) ∧
      parser.Succeeds Json.rules false c (.array [.number (.int 0)]) (c.skip "[0]") ∧
      (elementOf ps).Succeeds (rulesOf ps) false c (.array [.number (.int 0)]) (c.skip "[0]") ∧
      (parser.run Json.rules false nestingLimit d).result =
        .failure ⟨d.position, "Expected \x7b, but got ["⟩ ∧
      ((elementOf ps).run (rulesOf ps) false nestingLimit d).result =
        .failure ⟨d.position, "Expected n, but got ["⟩ ∧
      (elementOf ps).Fails (rulesOf ps) false d := by
  intro ps c d
  have hps : ps.Perm (alternatives .element) := List.reverse_perm _
  have hzero : IsNumber "0" (.int 0) := .intro .none .zero .none .none
  have hnil : AreBlank [] := nofun
  have hitem : IsElement "0" (.number (.int 0)) := .intro hnil (.number hzero) hnil
  have hlist : Bracketed IsElement '[' ']' "[0]" [.number (.int 0)] := .items (.one hitem)
  have harray : IsElement "[0]" (.array [.number (.int 0)]) := .intro hnil (.array hlist) hnil
  have hcovers : parser.Covers Json.rules false IsElement elementGoesOn (("[0]" : Text) ++ []) :=
    element_covers rfl (.of_length_le (by decide))
  have hc : parser.Succeeds Json.rules false c (.array [.number (.int 0)]) (c.skip "[0]") :=
    (hcovers.answers harray .nil).succeeds (Cursor.unread_start _ _)
  have hd : (parser.run Json.rules false nestingLimit d).result =
      .failure ⟨d.position, "Expected \x7b, but got ["⟩ := by decide +kernel
  exact ⟨hps, hc, ((order_irrelevant false hps c).2.1 _ _).2 hc, hd, by decide +kernel,
    (order_irrelevant false hps d).2.2.1.2 ⟨_, _, hd⟩⟩

end Json
end Descent
