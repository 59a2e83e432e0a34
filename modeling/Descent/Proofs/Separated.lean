import Descent.Proofs.Repetition
import Descent.Proofs.Sequencing

/-!
# Separated lists are recursive parsers

`p.sepBySome separator` is a loop over separators with an item behind each of them. If a separator
with an item behind it advances, then the loop is what the recursion says that reads an item and
then a separator and itself, or else nothing (`Parser.sepBy_is_recursive`). The two bracket the text
differently, a separator with the item behind it or with all that is behind it, and `bind_assoc`
takes the one to the other. `Separated` says what such a list is: items with separators between
them, of which only the items are kept.
-/

namespace Descent

namespace Parser

variable {ρ : Type → Type} {rules : Rules ρ} {verbose : Bool} {α β : Type} {p : Parser ρ α}
  {separator : Parser ρ β} {c d e : Cursor} {v : α} {vs : List α}

/-! ### The recursion -/

/-- An item, and then a separator and `self`, or else nothing. -/
def itemAnd (p : Parser ρ α) (separator : Parser ρ β) (self : Parser ρ (List α)) :
    Parser ρ (List α) :=
  p.bind fun x => ((separator.keepRight self).orElse (.pure [])).map (x :: ·)

section
variable
  (hp : ∀ c v d, (separator.keepRight p).Succeeds rules verbose c v d → c.offset < d.offset)
include hp

/-- If neither of them took anything, then the separator and the item could go on for ever. -/
theorem unreadCount_lt_of_item {u : β} (hv : p.Succeeds rules verbose c v d)
    (hu : separator.Succeeds rules verbose d u e) : e.unreadCount < c.unreadCount := by
  obtain ⟨s, hs⟩ := hv.leads
  obtain ⟨t, ht⟩ := hu.leads
  refine (hs.trans ht).unreadCount_lt fun hnil => ?_
  obtain ⟨rfl, rfl⟩ := List.append_eq_nil_iff.1 hnil
  obtain rfl : d = c := hs.2
  obtain rfl : e = d := ht.2
  exact Nat.lt_irrefl _ (hp e v e (bind_succeeds_iff.2 ⟨u, e, hu, hv⟩))

theorem sepBySome_unroll : Agree rules verbose (p.sepBySome separator)
    (itemAnd p separator (p.sepBySome separator)) := by
  intro c
  refine (Agree.refl p c).bind fun v d _ => AgreeAt.tryMap _ ((many_unroll (hp d)).trans ?_)
  exact AgreeAt.orElse (Agree.bind_assoc separator _ _ d) (Agree.refl _ d)

/-- Both sides take an item and a separator alike, and what is behind these lies further on. -/
theorem agree_sepBySome_of_unroll {q : Parser ρ (List α)}
    (hq : Agree rules verbose q (itemAnd p separator q)) :
    Agree rules verbose q (p.sepBySome separator) := by
  intro c
  induction hn : c.unreadCount using Nat.strongRecOn generalizing c with
  | _ n ih =>
    have hrest : ∀ v d, p.Succeeds rules verbose c v d →
        AgreeAt rules verbose d ((separator.keepRight q).orElse (.pure []))
          ((separator.keepRight (p.sepBySome separator)).orElse (.pure [])) := by
      intro v d hv
      refine AgreeAt.orElse ((Agree.refl separator d).bind fun u e hu => ?_) (Agree.refl _ d)
      exact ih _ (hn ▸ unreadCount_lt_of_item hp hv hu) e rfl
    have hbody : AgreeAt rules verbose c (itemAnd p separator q)
        (itemAnd p separator (p.sepBySome separator)) :=
      (Agree.refl p c).bind fun v d hv => (hrest v d hv).tryMap _
    exact (hq c).trans (hbody.trans (sepBySome_unroll hp c).symm)

end

theorem itemAnd_agree {q q' : Parser ρ (List α)} (h : Agree rules verbose q q') :
    Agree rules verbose (itemAnd p separator q) (itemAnd p separator q') := by
  intro c
  refine (Agree.refl p c).bind fun v d _ => AgreeAt.tryMap _ (AgreeAt.orElse ?_ (Agree.refl _ d))
  exact (Agree.refl separator).bind (fun _ => h) d

/-! ### How a list ends -/

/-- Items with separators between them lie between two cursors, and the list is that of their
values. -/
inductive Separated (rules : Rules ρ) (verbose : Bool) (p : Parser ρ α) (separator : Parser ρ β) :
    Cursor → List α → Cursor → Prop where
  | one {c d : Cursor} {v : α} (h : p.Succeeds rules verbose c v d) :
      Separated rules verbose p separator c [v] d
  | cons {c d e f : Cursor} {v : α} {u : β} {vs : List α} (h : p.Succeeds rules verbose c v d)
      (hu : separator.Succeeds rules verbose d u e)
      (hs : Separated rules verbose p separator e vs f) :
      Separated rules verbose p separator c (v :: vs) f

/-- The separators can as well be counted among the items behind them. -/
theorem separated_iff : Separated rules verbose p separator c vs d ↔
    ∃ v us e, vs = v :: us ∧ p.Succeeds rules verbose c v e ∧
      Run.Successive ((separator.keepRight p).Succeeds rules verbose) e us d := by
  constructor
  · intro h
    induction h with
    | one h => exact ⟨_, [], _, rfl, h, .nil _⟩
    | cons h hu _ ih =>
      obtain ⟨v, us, e, rfl, hv, hus⟩ := ih
      exact ⟨_, v :: us, _, rfl, h, .cons (bind_succeeds_iff.2 ⟨_, _, hu, hv⟩) hus⟩
  · rintro ⟨v, us, e, rfl, hv, hus⟩
    induction hus generalizing c v with
    | nil e => exact .one hv
    | cons h _ ih =>
      obtain ⟨u, x, hu, hw⟩ := bind_succeeds_iff.1 h
      exact .cons hv hu (ih _ hw)

theorem some_rounds_not_fails (v : α) (d : Cursor) :
    ¬ ((separator.keepRight p).many.map (v :: ·)).Fails rules verbose d :=
  fun h => many_not_fails (map_fails_iff.1 h)

theorem sepBySome_fails_iff : (p.sepBySome separator).Fails rules verbose c ↔
    p.Fails rules verbose c :=
  bind_fails_iff.trans (or_iff_left fun ⟨v, d, _, h⟩ => some_rounds_not_fails v d h)

theorem sepBySome_succeeds_iff : (p.sepBySome separator).Succeeds rules verbose c vs d ↔
    Separated rules verbose p separator c vs d ∧
      (separator.keepRight p).Fails rules verbose d := by
  rw [separated_iff]
  refine bind_succeeds_iff.trans ?_
  simp only [map_succeeds_iff, many_succeeds_iff]
  constructor
  · rintro ⟨v, e, hv, us, ⟨hus, hfails⟩, rfl⟩
    exact ⟨⟨v, us, e, rfl, hv, hus⟩, hfails⟩
  · rintro ⟨⟨v, us, e, rfl, hv, hus⟩, hfails⟩
    exact ⟨v, e, hv, us, ⟨hus, hfails⟩, rfl⟩

section
variable
  (hp : ∀ c v d, (separator.keepRight p).Succeeds rules verbose c v d → c.offset < d.offset)
include hp

theorem sepBySome_aborts_iff {a : Abort} : (p.sepBySome separator).Aborts rules verbose c a ↔
    p.Aborts rules verbose c a ∨ ∃ vs d, Separated rules verbose p separator c vs d ∧
      (separator.keepRight p).Aborts rules verbose d a := by
  refine bind_aborts_iff.trans (or_congr_right ?_)
  simp only [map_aborts_iff, many_aborts_iff hp, separated_iff]
  constructor
  · rintro ⟨v, e, hv, us, d, hus, ha⟩
    exact ⟨_, d, ⟨v, us, e, rfl, hv, hus⟩, ha⟩
  · rintro ⟨_, d, ⟨v, us, e, rfl, hv, hus⟩, ha⟩
    exact ⟨v, e, hv, us, d, hus, ha⟩

end

/-- `self` is the recursive parser of a list, and `self` or nothing that of a list that may be
empty. The loops reach the runs of these, and every solution of the recursion agrees with the loop.
A list ends behind an item, in front of a separator that fails or that has no item behind it. It
fails only as its first item does, and not at all if it may be empty. -/
theorem sepBy_is_recursive (rules : Rules ρ) (verbose : Bool) (p : Parser ρ α)
    (separator : Parser ρ β)
    (hp : ∀ c v d, (separator.keepRight p).Succeeds rules verbose c v d → c.offset < d.offset) :
    let self : Parser (Extended ρ Unit (List α)) (List α) := .ref (.own () rfl)
    let recursive := rules.extend fun _ : Unit => itemAnd p.lift separator.lift self
    (∀ c r, (p.sepBySome separator).Reaches rules verbose c r ↔
      self.Reaches recursive verbose c r) ∧
    (∀ c r, (p.sepBy separator).Reaches rules verbose c r ↔
      (self.orElse (.pure [])).Reaches recursive verbose c r) ∧
    (∀ q : Parser ρ (List α), Agree rules verbose q (itemAnd p separator q) ↔
      Agree rules verbose q (p.sepBySome separator)) ∧
    (∀ c vs d, (p.sepBySome separator).Succeeds rules verbose c vs d ↔
      Separated rules verbose p separator c vs d ∧ (separator.Fails rules verbose d ∨
        ∃ u e, separator.Succeeds rules verbose d u e ∧ p.Fails rules verbose e)) ∧
    (∀ c f es, (p.sepBySome separator).Reaches rules verbose c ⟨.failure f, es⟩ ↔
      p.Reaches rules verbose c ⟨.failure f, es⟩) ∧
    (∀ c a, (p.sepBySome separator).Aborts rules verbose c a ↔ p.Aborts rules verbose c a ∨
      ∃ vs d, Separated rules verbose p separator c vs d ∧ (separator.Aborts rules verbose d a ∨
        ∃ u e, separator.Succeeds rules verbose d u e ∧ p.Aborts rules verbose e a)) ∧
    (∀ c vs d, (p.sepBy separator).Succeeds rules verbose c vs d ↔
      (p.sepBySome separator).Succeeds rules verbose c vs d ∨
        p.Fails rules verbose c ∧ vs = [] ∧ d = c) ∧
    (∀ c, ¬ (p.sepBy separator).Fails rules verbose c) ∧
    (∀ c a, (p.sepBy separator).Aborts rules verbose c a ↔
      (p.sepBySome separator).Aborts rules verbose c a) := by
  intro self recursive
  have hlift : ∀ c v d, (separator.lift.keepRight p.lift).Succeeds recursive verbose c v d →
      c.offset < d.offset :=
    fun c v d h => hp c v d (succeeds_lift_iff.1 h)
  have hself : Agree recursive verbose self (p.lift.sepBySome separator.lift) :=
    agree_sepBySome_of_unroll hlift fun c => agreeAt_iff_matches.2 (matches_succ self c)
  refine ⟨fun c r => ?_, fun c r => ?_, fun q => ⟨agree_sepBySome_of_unroll hp, fun hq => ?_⟩,
    fun c vs d => ?_, fun c f es => bind_reaches_failure_iff some_rounds_not_fails, fun c a => ?_,
    fun c vs d => ?_, fun c => ?_, fun c a => ?_⟩
  · exact reaches_lift_iff.symm.trans (hself c r).symm
  · exact reaches_lift_iff.symm.trans ((hself c).orElse (Agree.refl _ c) r).symm
  · exact hq.trans ((sepBySome_unroll hp).trans (itemAnd_agree hq.symm))
  · rw [sepBySome_succeeds_iff, keepRight, bind_fails_iff]
  · simp only [sepBySome_aborts_iff hp, keepRight, bind_aborts_iff]
  · rw [sepBy, orElse_succeeds_iff, sepBySome_fails_iff, pure_succeeds_iff]
  · rw [sepBy, orElse_fails_iff]
    exact fun h => pure_not_fails _ h.2
  · rw [sepBy, orElse_aborts_iff]
    exact or_iff_left fun h => pure_not_aborts _ h.2

/-- The last item takes the first of its two characters, and gives it back with the comma. -/
theorem sepBy_is_recursive_commas :
    let rules : Rules fun _ => Empty := fun _ r => r.elim
    let p : Parser (fun _ => Empty) CodePoint :=
      (delay "item" anyChar).bind fun x => (char ';').map fun _ => x
    let separator : Parser (fun _ => Empty) CodePoint := char ','
    let self : Parser (Extended (fun _ => Empty) Unit (List CodePoint)) (List CodePoint) :=
      .ref (.own () rfl)
    let recursive := rules.extend fun _ : Unit => itemAnd p.lift separator.lift self
    let c : Cursor := .start "1;,2;,3!" []
    let d : Cursor := ⟨c.text, 5, ⟨1, 6, []⟩⟩
    let r : Run (List CodePoint) := ⟨.success "12" d, List.replicate 3 (.built "item")⟩
    let r' : Run (List CodePoint) := ⟨.success [] d, [.built "item"]⟩
    (∀ c v d, (separator.keepRight p).Succeeds rules true c v d → c.offset < d.offset) ∧
      (p.sepBySome separator).Reaches rules true c r ∧ self.Reaches recursive true c r ∧
      Separated rules true p separator c "12" d ∧ separator.Succeeds rules true d ',' (d.skip ",") ∧
      (p.sepBy separator).Reaches rules true d r' ∧
      (self.orElse (.pure [])).Reaches recursive true d r' := by
  intro rules p separator self recursive c d r r'
  have hseparator : separator.Consumes rules true := Consumes.satisfy _ _
  have hp : ∀ c v d, (separator.keepRight p).Succeeds rules true c v d → c.offset < d.offset :=
    consumes_iff.1 hseparator.bind
  obtain ⟨hsome, hany, -, hends, -⟩ := sepBy_is_recursive rules true p separator hp
  have hresult : ((p.sepBySome separator).run rules true 8 c).result = .success "12" d := by
    decide +kernel
  have hreaches : (p.sepBySome separator).Reaches rules true c r :=
    reaches_of_run (by simp) hresult (by decide +kernel)
  have hempty : (p.sepBy separator).Reaches rules true d r' :=
    reaches_of_run (n := 8) (by simp) (by decide +kernel) (by decide +kernel)
  have hcomma : separator.Succeeds rules true d ',' (d.skip ",") := ⟨3, by decide +kernel⟩
  exact ⟨hp, hreaches, (hsome c r).1 hreaches, ((hends c _ d).1 ⟨8, hresult⟩).1, hcomma, hempty,
    (hany d r').1 hempty⟩

end Parser
end Descent
