import Descent.Proofs.Arith.Language
import Descent.Proofs.LongestPrefix

/-!
# Chains of operands

The parsers of both levels take a chain of operands as far as it goes, and leave an operator
whose right operand does not follow. A chain in the language is a chain whose last operand decides:
the operands before it are followed by operators, so that they are taken as they are
(`Chained.answers`), and what the last operand is part of is as long or longer (`Chained.last`).
-/

namespace Descent
namespace Arith

open Descent.Parser

variable {ρ : Type → Type} {rules : Rules ρ} {verbose : Bool} {t : Text}

/-! ### Operators -/

/-- A choice of two one-character operators. -/
def either (c d : CodePoint) : Parser ρ Text := (symbol [c]).orElse (symbol [d])

def IsOperator (operators : Text) (s : Text) (x : Text) : Prop :=
  ∃ c w, s = c :: w ∧ x = [c] ∧ c ∈ operators ∧ AreBlank w

theorem symbol_reads (c : CodePoint) (t : Text) :
    (symbol (ρ := ρ) [c]).Reads rules verbose (IsOperator [c]) t := by
  refine (Reads.string [c] t).keepLeft (fun _ _ u _ _ => Reads.whitespaces u) ?_
  rintro s v w _ ⟨rfl, rfl⟩ hw
  exact ⟨c, w, rfl, rfl, List.mem_singleton_self c, hw⟩

theorem symbol_answers (c : CodePoint) {w : Text} (hw : AreBlank w) (ht : Stops (· ∈ blanks) t) :
    (symbol (ρ := ρ) [c]).Answers rules verbose (c :: (w ++ t)) (.took [c] (c :: w)) :=
  Answers.keepLeft (s := [c]) (.string [c] (w ++ t)) (.whitespaces hw ht)

theorem symbol_answers_missed {c : CodePoint} (h : c ∉ t.head?) :
    (symbol (ρ := ρ) [c]).Answers rules verbose t (.missed [] (expected [c] t)) :=
  (Answers.char_missed h).bind_missed.bind_missed

theorem symbol_misses {c : CodePoint} (h : c ∉ t.head?) :
    (symbol (ρ := ρ) [c]).Misses rules verbose t :=
  ⟨_, _, symbol_answers_missed h⟩

theorem either_reads (c d : CodePoint) (t : Text) :
    (either (ρ := ρ) c d).Reads rules verbose (IsOperator [c, d]) t := by
  refine Reads.orElse ((symbol_reads c t).mono ?_) ((symbol_reads d t).mono ?_)
  · rintro s v ⟨x, w, hs, hv, hx, hw⟩
    exact ⟨x, w, hs, hv, by simp_all, hw⟩
  · rintro s v ⟨x, w, hs, hv, hx, hw⟩
    exact ⟨x, w, hs, hv, by simp_all, hw⟩

theorem either_answers {c d x : CodePoint} (hx : x ∈ [c, d]) {w : Text} (hw : AreBlank w)
    (ht : Stops (· ∈ blanks) t) :
    (either (ρ := ρ) c d).Answers rules verbose (x :: (w ++ t)) (.took [x] (x :: w)) := by
  by_cases hc : x = c
  · subst hc
    exact (symbol_answers x hw ht).orElse nofun
  · have hd : x = d := by simpa [hc] using hx
    subst hd
    exact .orElse_missed (symbol_misses fun h => hc (Option.some.inj h)) (symbol_answers x hw ht)

theorem either_misses {c d : CodePoint} (h : ∀ x ∈ t.head?, x ∉ [c, d]) :
    (either (ρ := ρ) c d).Misses rules verbose t := by
  refine Misses.orElse (symbol_misses fun hx => ?_) (symbol_misses fun hx => ?_)
  · exact h c hx (by simp)
  · exact h d hx (by simp)

/-! ### Chains -/

/-- The operators of a chain as functions on trees. -/
def joining (operator : Parser ρ Text) : Parser ρ (Expr → Expr → Except Fault Expr) :=
  operator.map fun op left right => .ok (.binary op left right)

section
variable {operand : Parser ρ Expr} {L : Text → Expr → Prop} {C : CodePoint → Bool}
  {c d : CodePoint} {s u : Text} {e : Expr}

/-- An operator with whitespace behind it, and what it makes of its operands. -/
def Joins (operators : Text) (s : Text) (f : Expr → Expr → Except Fault Expr) : Prop :=
  ∃ x w, s = x :: w ∧ f = (fun left right => .ok (.binary [x] left right)) ∧ x ∈ operators ∧
    AreBlank w

theorem Joins.ne_nil {operators : Text} {f : Expr → Expr → Except Fault Expr}
    (h : Joins operators s f) : s ≠ [] := by
  rcases h with ⟨x, w, rfl, -⟩
  exact List.cons_ne_nil x w

theorem Chained.join {operators r : Text} {w : Expr} {f : Expr → Expr → Except Fault Expr}
    (h : Chained L operators s e) (hf : Joins operators r f) (hu : L u w) :
    ∃ v, f e w = .ok v ∧ Chained L operators (s ++ (r ++ u)) v := by
  rcases hf with ⟨x, b, rfl, rfl, hx, hb⟩
  exact ⟨_, rfl, .more h hx hb hu⟩

theorem joining_reads (c d : CodePoint) (t : Text) :
    (joining (ρ := ρ) (either c d)).Reads rules verbose (Joins [c, d]) t := by
  refine (either_reads c d t).map ?_
  rintro _ _ ⟨x, w, rfl, rfl, hx, hw⟩
  exact ⟨x, w, rfl, rfl, hx, hw⟩

theorem chain_reads (hreads : ∀ s u, t = s ++ u → operand.Reads rules verbose L u) :
    (Grammar.chain operand (either c d)).Reads rules verbose (Chained L [c, d]) t :=
  Reads.chainLeft (fun _ _ h => .one h) (fun _ _ _ _ _ _ h hf hu => h.join hf hu)
    (fun _ _ h => h.ne_nil) (fun _ u _ => joining_reads c d u) hreads

/-- Operands that are followed by operators are taken as they are. -/
theorem Chained.answers (h : Chained L [c, d] s e) (hopens : ∀ s e, L s e → Opens s)
    (hoperand : ∀ b r v y, s ++ u = b ++ (r ++ y) → L r v → (∃ x ∈ y.head?, x ∈ [c, d]) →
      operand.Answers rules verbose (r ++ y) (.took v r))
    (hu : ∃ x ∈ u.head?, x ∈ [c, d]) {a : Answer Expr}
    (hcont : Continues rules verbose operand (joining (either c d)) e u a) :
    (Grammar.chain operand (either c d)).Answers rules verbose (s ++ u) (a.behind s) := by
  induction h generalizing u a with
  | one h => exact (hoperand [] _ _ u rfl h hu).chainLeft hcont
  | @more s w r x l e hl hx hw hr ih =>
    have htext : s ++ x :: (w ++ r) ++ u = s ++ ((x :: w) ++ (r ++ u)) := by simp
    rw [htext]
    have hop : (joining (either c d)).Answers rules verbose ((x :: w) ++ (r ++ u))
        (.took (fun left right => .ok (.binary [x] left right)) (x :: w)) :=
      (either_answers hx hw ((hopens r e hr).stops u)).map _
    have hlast := hoperand (s ++ x :: w) r e u (by simp) hr hu
    have hnext := Continues.next hop (List.cons_ne_nil x w) hlast rfl hcont
    have hall := ih (fun b r' v y hy => hoperand b r' v y (by rw [htext]; exact hy))
      ⟨x, rfl, hx⟩ hnext
    rw [← Answer.behind_append] at hall
    exact hall

/-- What a chain does is decided by what is taken for its last operand. -/
theorem Chained.last (h : Chained L [c, d] s e) (hopens : ∀ s e, L s e → Opens s)
    (hoperand : ∀ b r v y, s ++ u = b ++ (r ++ y) → L r v → (∃ x ∈ y.head?, x ∈ [c, d]) →
      operand.Answers rules verbose (r ++ y) (.took v r)) :
    ∃ (b r : Text) (v : Expr) (f : Expr → Expr), s = b ++ r ∧ L r v ∧ e = f v ∧
      ∀ w r' z a, r ++ u = r' ++ z →
      operand.Answers rules verbose (r ++ u) (.took w r') →
      Continues rules verbose operand (joining (either c d)) (f w) z a →
      (Grammar.chain operand (either c d)).Answers rules verbose (s ++ u)
        (a.behind (b ++ r')) := by
  cases h with
  | one h =>
    refine ⟨[], s, e, fun v => v, rfl, h, rfl, fun w r' z a htext hw hcont => ?_⟩
    rw [htext] at hw ⊢
    exact hw.chainLeft hcont
  | @more s w r x l e hl hx hw hr =>
    refine ⟨s ++ x :: w, r, e, fun v => .binary [x] l v, by simp, hr, rfl,
      fun v r' z a htext hv hcont => ?_⟩
    have hsplit : s ++ x :: (w ++ r) ++ u = s ++ ((x :: w) ++ (r ++ u)) := by simp
    have hop : (joining (either c d)).Answers rules verbose ((x :: w) ++ (r ++ u))
        (.took (fun left right => .ok (.binary [x] left right)) (x :: w)) :=
      (either_answers hx hw ((hopens r e hr).stops u)).map _
    rw [hsplit] at hoperand ⊢
    rw [htext] at hop hv hoperand ⊢
    have hnext := Continues.next hop (List.cons_ne_nil x w) hv rfl hcont
    have hall := hl.answers hopens hoperand ⟨x, rfl, hx⟩ hnext
    rw [← Answer.behind_append] at hall
    rw [List.append_assoc]
    exact hall

theorem continues_total (hreads : ∀ s u, t = s ++ u → operand.Reads rules verbose L u) (e : Expr) :
    ∃ v r, (r = [] → v = e) ∧
      Continues rules verbose operand (joining (either c d)) e t (.took v r) := by
  have hjoin : ∀ (s : Text) (v : Expr) (r : Text) f u w, True → Joins [c, d] r f → L u w →
      ∃ x, f v w = .ok x ∧ True := by
    rintro s v r f u w - ⟨x, b, rfl, rfl, -⟩ -
    exact ⟨_, rfl, trivial⟩
  have htotal : ∃ v r u, t = r ++ u ∧ True ∧ (r = [] → v = e) ∧
      Continues rules verbose operand (joining (either c d)) e t (.took v r) :=
    Continues.reads (M := fun _ _ => True) (b := []) hjoin (fun _ _ h => h.ne_nil)
      (fun _ u _ => joining_reads c d u) hreads trivial
  rcases htotal with ⟨v, r, u, -, -, hnil, h⟩
  exact ⟨v, r, hnil, h⟩

theorem chain_covers (hcd : C c = false ∧ C d = false) (hopens : ∀ s e, L s e → Opens s)
    (hreads : ∀ s u, t = s ++ u → operand.Reads rules verbose L u)
    (hcovers : ∀ s u, t = s ++ u → operand.Covers rules verbose L C u) :
    (Grammar.chain operand (either c d)).Covers rules verbose (Chained L [c, d])
      (fun x => C x || decide (x ∈ [c, d])) t := by
  intro s u e ht h
  subst ht
  obtain ⟨b, r, v, f, rfl, hr, rfl, hchain⟩ := h.last (u := u) hopens fun b r v y hy hr hop => by
    rcases hop with ⟨x, hx, hop⟩
    refine (hcovers b (r ++ y) hy).answers hr fun x' hx' => ?_
    obtain rfl := Option.mem_unique hx hx'
    obtain rfl | rfl : x = c ∨ x = d := by simpa using hop
    · exact hcd.1
    · exact hcd.2
  obtain ⟨w, r', hw, hrr', hvalue, hends⟩ := hcovers b (r ++ u) (by simp) r u v rfl hr
  obtain ⟨z, hz⟩ := hw.prefix_of_took
  by_cases hu : Stops (fun x => C x || decide (x ∈ [c, d])) u
  · obtain rfl := hends fun x hx => (Bool.or_eq_false_iff.1 (hu x hx)).1
    obtain rfl := hvalue rfl
    obtain rfl := List.append_cancel_left hz
    have hmiss : (joining (ρ := ρ) (either c d)).Misses rules verbose z := by
      refine (either_misses fun x hx => ?_).map _
      exact of_decide_eq_false (Bool.or_eq_false_iff.1 (hu x hx)).2
    have hall := hchain w r' z _ rfl hw (.operator_missed hmiss)
    rw [Answer.behind, List.append_nil] at hall
    exact hall.covers
  · have hz' : ∀ s x, z = s ++ x → operand.Reads rules verbose L x := by
      rintro s x rfl
      exact hreads (b ++ (r' ++ s)) x (by rw [List.append_assoc, ← hz]; simp)
    obtain ⟨v', x, hnil, hcont⟩ := continues_total (c := c) (d := d) hz' (f w)
    refine ⟨v', _, hchain w r' z _ hz.symm hw hcont, ?_, fun heq => ?_, fun h => absurd h hu⟩
    · rw [List.append_assoc, List.prefix_append_right_inj]
      exact hrr'.trans (List.prefix_append r' x)
    · have hlen := congrArg List.length heq
      simp only [List.length_append] at hlen
      have hlen' := hrr'.length_le
      have hx : x = [] := List.length_eq_zero_iff.1 (by omega)
      have hr' : r' = r := (hrr'.eq_of_length (by omega)).symm
      rw [hnil hx, hvalue hr']

end

end Arith
end Descent
