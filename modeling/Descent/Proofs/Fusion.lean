import Descent.Proofs.Arith.Chain
import Descent.Proofs.Chains
import Descent.Proofs.Outcomes

/-!
# Values of chains, computed later or at once

What is done with the value of a chain can be done with each operand instead, if the operators of
the chain are replaced by ones that work on the results (`Parser.chainLeft_fuses`). The two chains
take the same rounds, and the value so far of the one is what the other's comes to.

An expression can so be evaluated while it is read. Evaluation can fault, and the chain that
evaluates does so at once, with the fault that the evaluation of the whole expression ends in.
-/

namespace Descent

/-- `h` takes values of `f`, which has no faults, to what `g` makes of what it takes the arguments
to. -/
def Intertwines {α β : Type} (h : α → Except Fault β) (f : α → α → Except Fault α)
    (g : β → β → Except Fault β) : Prop :=
  ∀ v w, ∃ u, f v w = .ok u ∧ h u = do g (← h v) (← h w)

theorem intertwines_ok_iff {α β : Type} {h : α → β} {f : α → α → Except Fault α}
    {g : β → β → Except Fault β} : Intertwines (fun v => .ok (h v)) f g ↔
      ∀ v w, ∃ u, f v w = .ok u ∧ g (h v) (h w) = .ok (h u) :=
  forall₂_congr fun _ _ => exists_congr fun _ => and_congr_right fun _ => eq_comm

/-- What an operator does to two numbers. -/
def Operation.meaning (operator : Text) : Except Fault (Number → Number → Except Fault Number) :=
  match Operation.of? operator with
  | none => .error (.unknown operator)
  | some op => .ok op.apply

namespace Parser

variable {ρ : Type → Type} {rules : Rules ρ} {verbose : Bool} {α β : Type} {p : Parser ρ α}
  {op : Parser ρ (α → α → Except Fault α)} {op' : Parser ρ (β → β → Except Fault β)}
  {h : α → Except Fault β} {c d e : Cursor} {v u : α} {w : β}

/-! ### Operators that mirror others -/

/-- `op'` succeeds and fails where `op` does, takes what it takes, and its functions are what `h`
makes of those of `op`. -/
structure Mirrors (rules : Rules ρ) (verbose : Bool) (h : α → Except Fault β)
    (op : Parser ρ (α → α → Except Fault α)) (op' : Parser ρ (β → β → Except Fault β)) : Prop where
  succeeds {c d : Cursor} {f : α → α → Except Fault α} (hf : op.Succeeds rules verbose c f d) :
    ∃ g, op'.Succeeds rules verbose c g d ∧ Intertwines h f g
  of_succeeds {c d : Cursor} {g : β → β → Except Fault β} (hg : op'.Succeeds rules verbose c g d) :
    ∃ f, op.Succeeds rules verbose c f d ∧ Intertwines h f g
  fails (c : Cursor) : op'.Fails rules verbose c ↔ op.Fails rules verbose c

/-! ### Two chains -/

section
variable (hop : Mirrors rules verbose h op op')
include hop

theorem ChainsTo.mirror (hv : ChainsTo rules verbose p op c v d) (hw : h v = .ok w) :
    ChainsTo rules verbose (p.tryMap h) op' c w d := by
  induction hv using ChainsTo.induction generalizing w with
  | one v d hv => exact .one (tryMap_succeeds_iff.2 ⟨v, hv, hw⟩)
  | more v d x u e _ hx hu ih =>
    obtain ⟨z, hf, hx⟩ := hx
    obtain ⟨g, hg, hfg⟩ := hop.succeeds hf
    obtain ⟨u', hu', hh⟩ := hfg v x.2
    obtain rfl : u' = u := Except.ok.inj (hu'.symm.trans hu)
    rw [hh] at hw
    cases hv : h v with
    | error f => rw [hv] at hw; cases hw
    | ok w₀ =>
      cases hy : h x.2 with
      | error f => rw [hv, hy] at hw; cases hw
      | ok y =>
        rw [hv, hy] at hw
        exact (ih hv).more (x := (g, y)) ⟨z, hg, tryMap_succeeds_iff.2 ⟨x.2, hx, hy⟩⟩ hw

theorem ChainsTo.of_mirror (hw : ChainsTo rules verbose (p.tryMap h) op' c w d) :
    ∃ v, ChainsTo rules verbose p op c v d ∧ h v = .ok w := by
  induction hw using ChainsTo.induction with
  | one w d hw =>
    obtain ⟨v, hv, hvw⟩ := tryMap_succeeds_iff.1 hw
    exact ⟨v, .one hv, hvw⟩
  | more w d x w' e _ hx hw' ih =>
    obtain ⟨v, hv, hvw⟩ := ih
    obtain ⟨z, hg, hy⟩ := hx
    obtain ⟨f, hf, hfg⟩ := hop.of_succeeds hg
    obtain ⟨y, hy, hyx⟩ := tryMap_succeeds_iff.1 hy
    obtain ⟨u, hu, hh⟩ := hfg v y
    refine ⟨u, hv.more (x := (f, y)) ⟨z, hf, hy⟩ hu, ?_⟩
    rw [hh, hvw, hyx]
    exact hw'

theorem roundFails_mirror_iff :
    RoundFails rules verbose (p.tryMap h) op' d ↔ RoundFails rules verbose p op d := by
  simp only [RoundFails, hop.fails, tryMap_fails_iff]
  refine or_congr_right ⟨?_, ?_⟩
  · rintro ⟨g, e, hg, hp⟩
    obtain ⟨f, hf, -⟩ := hop.of_succeeds hg
    exact ⟨f, e, hf, hp⟩
  · rintro ⟨f, e, hf, hp⟩
    obtain ⟨g, hg, -⟩ := hop.succeeds hf
    exact ⟨g, e, hg, hp⟩

theorem RoundSucceeds.of_mirror {x : (β → β → Except Fault β) × β}
    (hx : RoundSucceeds rules verbose (p.tryMap h) op' d x e) :
    ∃ y, RoundSucceeds rules verbose p op d y e := by
  obtain ⟨z, hg, hy⟩ := hx
  obtain ⟨f, hf, -⟩ := hop.of_succeeds hg
  obtain ⟨y, hy, -⟩ := tryMap_succeeds_iff.1 hy
  exact ⟨(f, y), z, hf, hy⟩

/-- What the value of the chain faults in, the other chain faults in as soon as it comes to it. -/
theorem ChainsTo.mirror_error {f : Fault} (hv : ChainsTo rules verbose p op c v d)
    (hf : h v = .error f) : (p.tryMap h).Aborts rules verbose c (.fault f) ∨
      ∃ w x, ChainsTo rules verbose (p.tryMap h) op' c w x ∧
        (RoundAborts rules verbose (p.tryMap h) op' x (.fault f) ∨
          RoundRaises rules verbose (p.tryMap h) op' w x f) := by
  induction hv using ChainsTo.induction with
  | one v d hv => exact .inl (tryMap_aborts_of_error hv hf)
  | more v d x u e hv hx hu ih =>
    obtain ⟨z, hz, hx⟩ := hx
    obtain ⟨g, hg, hfg⟩ := hop.succeeds hz
    obtain ⟨u', hu', hh⟩ := hfg v x.2
    obtain rfl : u' = u := Except.ok.inj (hu'.symm.trans hu)
    rw [hh] at hf
    cases hw : h v with
    | error f' =>
      rw [hw] at hf
      cases hf
      exact ih hw
    | ok w =>
      refine .inr ⟨w, d, hv.mirror hop hw, ?_⟩
      cases hy : h x.2 with
      | error f' =>
        rw [hw, hy] at hf
        cases hf
        exact .inl (.inr ⟨g, z, hg, tryMap_aborts_of_error hx hy⟩)
      | ok y =>
        rw [hw, hy] at hf
        exact .inr ⟨g, y, e, ⟨z, hg, tryMap_succeeds_iff.2 ⟨x.2, hx, hy⟩⟩, hf⟩

theorem chainLeft_mirror_endsIn_iff {o : Outcome β} (ho : ∀ a, o ≠ .abort a) :
    ((p.tryMap h).chainLeft op').EndsIn rules verbose c o ↔
      ((p.chainLeft op).tryMap h).EndsIn rules verbose c o := by
  cases o with
  | success w d =>
    rw [← succeeds_iff_endsIn, ← succeeds_iff_endsIn, tryMap_succeeds_iff,
      chainLeft_succeeds_iff, roundFails_mirror_iff hop]
    simp only [chainLeft_succeeds_iff]
    constructor
    · rintro ⟨hw, hfails⟩
      obtain ⟨v, hv, hvw⟩ := hw.of_mirror hop
      exact ⟨v, ⟨hv, hfails⟩, hvw⟩
    · rintro ⟨v, ⟨hv, hfails⟩, hvw⟩
      exact ⟨hv.mirror hop hvw, hfails⟩
  | failure f =>
    calc ((p.tryMap h).chainLeft op').EndsIn rules verbose c (.failure f)
      _ ↔ (p.tryMap h).EndsIn rules verbose c (.failure f) :=
        exists_congr fun es => chainLeft_fails_iff
      _ ↔ p.EndsIn rules verbose c (.failure f) := tryMap_endsIn_failure_iff
      _ ↔ (p.chainLeft op).EndsIn rules verbose c (.failure f) :=
        (exists_congr fun es => chainLeft_fails_iff).symm
      _ ↔ _ := tryMap_endsIn_failure_iff.symm
  | abort a => exact absurd rfl (ho a)

section
variable (hp : ∀ c x e, RoundSucceeds rules verbose p op c x e → c.offset < e.offset)
include hp

theorem offset_lt_of_mirror (c : Cursor) (x : (β → β → Except Fault β) × β) (e : Cursor)
    (hx : RoundSucceeds rules verbose (p.tryMap h) op' c x e) : c.offset < e.offset := by
  obtain ⟨y, hy⟩ := hx.of_mirror hop
  exact hp c y e hy

theorem chainLeft_mirror_aborts {f : Fault} (hv : (p.chainLeft op).Succeeds rules verbose c v d)
    (hf : h v = .error f) : ((p.tryMap h).chainLeft op').Aborts rules verbose c (.fault f) := by
  obtain ⟨hv, -⟩ := chainLeft_succeeds_iff.1 hv
  refine (chainLeft_aborts_iff (offset_lt_of_mirror hop hp)).2 ?_
  rcases hv.mirror_error hop hf with habort | ⟨w, x, hw, hround⟩
  · exact .inl habort
  · exact .inr ⟨w, x, hw, hround.imp_right fun hraises => ⟨f, rfl, hraises⟩⟩

end
end

section
variable {h : α → β}

theorem roundAborts_mirror_iff {a : Abort} (hop : Mirrors rules verbose (fun v => .ok (h v)) op op')
    (haborts : ∀ c a, op'.Aborts rules verbose c a ↔ op.Aborts rules verbose c a) :
    RoundAborts rules verbose (p.map h) op' d a ↔ RoundAborts rules verbose p op d a := by
  simp only [RoundAborts, haborts, map_aborts_iff]
  refine or_congr_right ⟨?_, ?_⟩
  · rintro ⟨g, e, hg, hp⟩
    obtain ⟨f, hf, -⟩ := hop.of_succeeds hg
    exact ⟨f, e, hf, hp⟩
  · rintro ⟨f, e, hf, hp⟩
    obtain ⟨g, hg, -⟩ := hop.succeeds hf
    exact ⟨g, e, hg, hp⟩

/-- Functions without faults raise nothing. -/
theorem not_roundRaises {f : Fault} (hop : Mirrors rules verbose (fun v => .ok (h v)) op op') :
    ¬ RoundRaises rules verbose p op v d f := by
  rintro ⟨F, w, e, ⟨z, hF, -⟩, hf⟩
  obtain ⟨G, -, hFG⟩ := hop.succeeds hF
  obtain ⟨u, hu, -⟩ := intertwines_ok_iff.1 hFG v w
  cases hu.symm.trans hf

theorem not_roundRaises_mirror {f : Fault}
    (hop : Mirrors rules verbose (fun v => .ok (h v)) op op') :
    ¬ RoundRaises rules verbose (p.map h) op' (h v) d f := by
  rintro ⟨G, y, e, ⟨z, hG, hy⟩, hf⟩
  obtain ⟨F, -, hFG⟩ := hop.of_succeeds hG
  obtain ⟨w, -, rfl⟩ := map_succeeds_iff.1 hy
  obtain ⟨u, -, hu⟩ := intertwines_ok_iff.1 hFG v w
  cases hu.symm.trans hf

theorem chainLeft_map_aborts_iff {a : Abort}
    (hp : ∀ c x e, RoundSucceeds rules verbose p op c x e → c.offset < e.offset)
    (hop : Mirrors rules verbose (fun v => .ok (h v)) op op')
    (haborts : ∀ c a, op'.Aborts rules verbose c a ↔ op.Aborts rules verbose c a) :
    ((p.map h).chainLeft op').Aborts rules verbose c a ↔
      ((p.chainLeft op).map h).Aborts rules verbose c a := by
  have hp' : ∀ c x e, RoundSucceeds rules verbose (p.map h) op' c x e → c.offset < e.offset :=
    offset_lt_of_mirror hop hp
  rw [map_aborts_iff, chainLeft_aborts_iff hp, chainLeft_aborts_iff hp', map_aborts_iff]
  refine or_congr_right ⟨?_, ?_⟩
  · rintro ⟨w, d, hw, h⟩
    obtain ⟨v, hv, hvw⟩ := hw.of_mirror hop
    cases hvw
    refine ⟨v, d, hv, .inl ?_⟩
    rcases h with h | ⟨f, -, h⟩
    · exact (roundAborts_mirror_iff hop haborts).1 h
    · exact absurd h (not_roundRaises_mirror hop)
  · rintro ⟨v, d, hv, h⟩
    refine ⟨_, d, hv.mirror hop rfl, .inl ?_⟩
    rcases h with h | ⟨f, -, h⟩
    · exact (roundAborts_mirror_iff hop haborts).2 h
    · exact absurd h (not_roundRaises hop)

end

/-! ### Expressions -/

theorem mirrors_meaning {operator : Parser ρ Text}
    (hknown : ∀ c t d, operator.Succeeds rules verbose c t d → (Operation.of? t).isSome) :
    Mirrors rules verbose Expr.evaluate (Arith.joining operator)
      (operator.tryMap Operation.meaning) := by
  have hmeaning {t : Text} (ht : (Operation.of? t).isSome) : ∃ g, Operation.meaning t = .ok g ∧
      Intertwines Expr.evaluate (fun l r => .ok (.binary t l r)) g := by
    obtain ⟨o, ho⟩ := Option.isSome_iff_exists.1 ht
    refine ⟨o.apply, by simp only [Operation.meaning, ho], fun l r => ⟨_, rfl, ?_⟩⟩
    simp only [Expr.evaluate, ho]
  refine ⟨fun hf => ?_, fun hg => ?_, fun c => ?_⟩
  · obtain ⟨t, ht, rfl⟩ := map_succeeds_iff.1 hf
    obtain ⟨g, hg, hfg⟩ := hmeaning (hknown _ t _ ht)
    exact ⟨g, tryMap_succeeds_iff.2 ⟨t, ht, hg⟩, hfg⟩
  · obtain ⟨t, ht, hg⟩ := tryMap_succeeds_iff.1 hg
    obtain ⟨g', hg', hfg⟩ := hmeaning (hknown _ t _ ht)
    obtain rfl := Except.ok.inj (hg.symm.trans hg')
    exact ⟨_, map_succeeds_iff.2 ⟨t, ht, rfl⟩, hfg⟩
  · rw [tryMap_fails_iff, Arith.joining, map_fails_iff]

/-- The chain of the values of `p` under `h` ends in the value of the chain of `p` under `h`: in the
same place and failing alike, and also aborting alike if the operators do.

For expressions: if a chain gives an expression, then the chain that evaluates operands and applies
operators as it reads them ends as the evaluation of the expression says, in its value or in its
fault; and apart from aborts it ends in no other way than the evaluated chain does. -/
theorem chainLeft_fuses (rules : Rules ρ) (verbose : Bool) :
    (∀ {α β : Type} (p : Parser ρ α) (op : Parser ρ (α → α → Except Fault α))
      (op' : Parser ρ (β → β → Except Fault β)) (h : α → β),
      (∀ c x e, RoundSucceeds rules verbose p op c x e → c.offset < e.offset) →
      Mirrors rules verbose (fun v => .ok (h v)) op op' →
      (∀ c o, (∀ a, o ≠ .abort a) → (((p.map h).chainLeft op').EndsIn rules verbose c o ↔
        ((p.chainLeft op).map h).EndsIn rules verbose c o)) ∧
      ((∀ c a, op'.Aborts rules verbose c a ↔ op.Aborts rules verbose c a) →
        SameOutcomes rules verbose ((p.map h).chainLeft op') ((p.chainLeft op).map h))) ∧
    ∀ (operand : Parser ρ Expr) (operator : Parser ρ Text),
      (∀ c x e, RoundSucceeds rules verbose operand (Arith.joining operator) c x e →
        c.offset < e.offset) →
      (∀ c t d, operator.Succeeds rules verbose c t d → (Operation.of? t).isSome) →
      let tree := Arith.Grammar.chain operand operator
      let direct := (operand.tryMap Expr.evaluate).chainLeft (operator.tryMap Operation.meaning)
      (∀ c e d, tree.Succeeds rules verbose c e d →
        direct.EndsIn rules verbose c ((Outcome.success e d).tryMap Expr.evaluate)) ∧
      ∀ c o, (∀ a, o ≠ .abort a) → (direct.EndsIn rules verbose c o ↔
        (tree.tryMap Expr.evaluate).EndsIn rules verbose c o) := by
  refine ⟨fun p op op' h hp hop => ⟨fun c o => chainLeft_mirror_endsIn_iff hop,
    fun haborts c o => ?_⟩, fun operand operator hp hknown => ?_⟩
  · by_cases ho : ∃ a, o = .abort a
    · obtain ⟨a, rfl⟩ := ho
      rw [← aborts_iff_endsIn, ← aborts_iff_endsIn]
      exact chainLeft_map_aborts_iff hp hop haborts
    · exact chainLeft_mirror_endsIn_iff hop (not_exists.1 ho)
  · intro tree direct
    have hop := mirrors_meaning hknown
    have hsame (c : Cursor) (o : Outcome Number) (ho : ∀ a, o ≠ .abort a) :
        direct.EndsIn rules verbose c o ↔ (tree.tryMap Expr.evaluate).EndsIn rules verbose c o :=
      chainLeft_mirror_endsIn_iff hop ho
    refine ⟨fun c e d he => ?_, hsame⟩
    simp only [Outcome.tryMap]
    cases hx : e.evaluate with
    | ok x =>
      refine (hsame c _ (by simp)).2 (succeeds_iff_endsIn.1 ?_)
      exact tryMap_succeeds_iff.2 ⟨e, he, hx⟩
    | error f => exact aborts_iff_endsIn.1 (chainLeft_mirror_aborts hop hp he hx)

/-- Lengths of words are added instead of the length of the joined words being taken, up to a dash
that no word follows. And a division by zero in the middle of an expression. -/
theorem chainLeft_fuses_words_division :
    let rules : Rules fun _ => Empty := fun _ r => r.elim
    let word : Parser (fun _ => Empty) Text := letter.some
    let join : Parser (fun _ => Empty) (Text → Text → Except Fault Text) :=
      (char '-').map fun _ v w => .ok (v ++ w)
    let plus : Parser (fun _ => Empty) (Nat → Nat → Except Fault Nat) :=
      (char '-').map fun _ m n => .ok (m + n)
    let c : Cursor := .start "ab-cde-f-" []
    let d : Cursor := ⟨c.text, 8, ⟨1, 9, []⟩⟩
    let operand : Parser (fun _ => Empty) Expr := Arith.Grammar.number.map .number
    let tree := Arith.Grammar.chain operand Arith.Grammar.mulDiv
    let direct := (operand.tryMap Expr.evaluate).chainLeft
      (Arith.Grammar.mulDiv.tryMap Operation.meaning)
    let c' : Cursor := .start "8/0*3" []
    ((word.map List.length).chainLeft plus).EndsIn rules true c (.success 6 d) ∧
      ((word.chainLeft join).map List.length).EndsIn rules true c (.success 6 d) ∧
      (∃ e d', tree.Succeeds rules true c' e d' ∧ e.evaluate = .error .zeroDivisor) ∧
      direct.EndsIn rules true c' (.abort (.fault .zeroDivisor)) := by
  intro rules word join plus c d operand tree direct c'
  have hdash {γ : Type} (f : CodePoint → γ) :
      ((char (ρ := fun _ => Empty) '-').map f).Consumes rules true :=
    (Consumes.satisfy _ _).tryMap _
  have hmirrors : Mirrors rules true (fun v => .ok v.length) join plus := by
    have hlength : Intertwines (fun v : Text => .ok v.length) (fun v w => .ok (v ++ w))
        fun m n => .ok (m + n) :=
      intertwines_ok_iff.2 fun v w => ⟨v ++ w, rfl, by rw [List.length_append]⟩
    refine ⟨fun hf => ?_, fun hg => ?_, fun c => by rw [map_fails_iff, map_fails_iff]⟩
    · obtain ⟨x, hx, rfl⟩ := map_succeeds_iff.1 hf
      exact ⟨_, map_succeeds_iff.2 ⟨x, hx, rfl⟩, hlength⟩
    · obtain ⟨x, hx, rfl⟩ := map_succeeds_iff.1 hg
      exact ⟨_, map_succeeds_iff.2 ⟨x, hx, rfl⟩, hlength⟩
  have hknown : ∀ c t d, (Arith.either (ρ := fun _ => Empty) '*' '/').Succeeds rules true c t d →
      (Operation.of? t).isSome := by
    intro c t d ht
    obtain ⟨s, hs, -⟩ := ht.took
    obtain ⟨x, w, -, rfl, hx, -⟩ := (Arith.either_reads '*' '/' c.unread).sound hs
    exact (by decide : ∀ x ∈ ("*/" : Text), (Operation.of? [x]).isSome) x hx
  obtain ⟨hfuses, hexpr⟩ := chainLeft_fuses rules true
  obtain ⟨hsame, -⟩ := hfuses word join plus List.length
    (fun c x e hx => hx.offset_lt (hdash _)) hmirrors
  obtain ⟨hdirect, -⟩ := hexpr operand (Arith.either '*' '/')
    (fun c x e hx => hx.offset_lt fun t f hf =>
      ((Arith.joining_reads '*' '/' t).sound hf).ne_nil rfl)
    hknown
  have hadded : ((word.map List.length).chainLeft plus).EndsIn rules true c (.success 6 d) :=
    succeeds_iff_endsIn.1 ⟨20, by decide +kernel⟩
  let e : Expr := .binary "*" (.binary "/" (.number (.int 8)) (.number (.int 0))) (.number (.int 3))
  have htree : tree.Succeeds rules true c' e ⟨c'.text, 5, ⟨1, 6, []⟩⟩ := ⟨20, by decide +kernel⟩
  have hfault : e.evaluate = .error .zeroDivisor := by decide +kernel
  have hends := hdirect c' e _ htree
  simp only [Outcome.tryMap, hfault] at hends
  exact ⟨hadded, (hsame c _ (by simp)).1 hadded, ⟨e, _, htree, hfault⟩, hends⟩

end Parser
end Descent
