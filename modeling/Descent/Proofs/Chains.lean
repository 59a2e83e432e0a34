import Descent.Proofs.Guarded
import Descent.Proofs.Recursion
import Descent.Proofs.Sequencing
import Descent.Proofs.Settling

/-!
# Chains are recursive parsers

`operand.chainLeft operator` is a loop that folds values. If an operator with an operand behind it
advances, then the loop is what the recursion says that reads an operator, an operand and the rest
of the chain, or else nothing (`Parser.chainLeft_is_recursive`): it takes pairs as long as they are
complete, and each operator is applied before the next pair is tried.
-/

namespace Descent

namespace Parser

variable {ρ : Type → Type} {rules : Rules ρ} {verbose : Bool} {α : Type} {p : Parser ρ α}
  {op : Parser ρ (α → α → Except Fault α)} {c d : Cursor} {v : α}

/-- It is enough that operators consume something. -/
theorem RoundSucceeds.offset_lt {x : (α → α → Except Fault α) × α}
    (h : RoundSucceeds rules verbose p op c x d) (hop : op.Consumes rules verbose) :
    c.offset < d.offset := by
  obtain ⟨e, hf, hw⟩ := h
  obtain ⟨s, hs⟩ := hw.leads
  have hlt := consumes_iff.1 hop c x.1 e hf
  rw [hs.offset]
  omega

/-! ### The recursion -/

/-- What follows an operand in a chain: an operator with an operand, and then what follows the
value that the operator gives, or else nothing. -/
def chainRest (p : Parser ρ α) (op : Parser ρ (α → α → Except Fault α)) (rest : α → Parser ρ α)
    (v : α) : Parser ρ α :=
  (op.bind fun f => p.bind fun w => (ofExcept (f v w)).bind rest).orElse (.pure v)

section
variable {rest : α → Parser ρ α}

/-- An operator is applied, and the rest of the chain stands behind the value. -/
theorem matches_applied (f : α → α → Except Fault α) (v w : α) {k : α → Nat → Run α}
    (hk : ∀ u, f v w = .ok u → Run.Matches ((rest u).run rules verbose · c) (k u)) :
    Run.Matches (((ofExcept (f v w)).bind rest).run rules verbose · c) fun n =>
      Run.proceed (k · n) (f v w) := by
  cases hf : f v w with
  | ok u => exact (agreeAt_iff_matches.1 (Agree.pure_bind u rest c)).trans (hk u hf)
  | error e =>
    have hthrow : Run.Matches ((throw (ρ := ρ) (α := α) e).run rules verbose · c)
        fun _ => .abort (.fault e) := matches_succ _ c
    exact (matches_bind _ rest c).trans (hthrow.andThen fun _ d _ => matches_refl _ d)

theorem foldWhile_chainRound_unroll
    (hp : ∀ x e, RoundSucceeds rules verbose p op c x e → c.offset < e.offset) (v : α) (n : Nat) :
    Run.foldWhile (chainRound rules verbose p op n) (fun v (f, w) => f v w) v c =
      ((op.run rules verbose n c).andThen fun f d => (p.run rules verbose n d).andThen fun w e =>
        Run.proceed (Run.foldWhile (chainRound rules verbose p op n) (fun v (f, w) => f v w) · e)
          (f v w)).orElse fun _ => .success v c := by
  have hlt (x : (α → α → Except Fault α) × α) (e : Cursor)
      (hx : (chainRound rules verbose p op n c).result = .success x e) :
      e.unreadCount < c.unreadCount := by
    have hx := chainRound_success_iff.1 ⟨n, hx⟩
    exact hx.unreadCount_lt (hp x e hx)
  rw [Run.foldWhile_unroll hlt]
  simp only [chainRound, Run.andThen_assoc, Run.map_andThen]

section
variable (hp : ∀ c x e, RoundSucceeds rules verbose p op c x e → c.offset < e.offset)
include hp

/-- The induction is on what is left to read, which a complete pair makes less. -/
theorem matches_foldWhile (hrest : ∀ v, Agree rules verbose (rest v) (chainRest p op rest v))
    (v : α) (c : Cursor) : Run.Matches ((rest v).run rules verbose · c) fun n =>
      Run.foldWhile (chainRound rules verbose p op n) (fun v (f, w) => f v w) v c := by
  induction hn : c.unreadCount using Nat.strongRecOn generalizing v c with
  | _ n ih =>
    have hpair : Run.Matches
        ((op.bind fun f => p.bind fun w => (ofExcept (f v w)).bind rest).run rules verbose · c)
        fun n => (op.run rules verbose n c).andThen fun f d =>
          (p.run rules verbose n d).andThen fun w e => Run.proceed
            (Run.foldWhile (chainRound rules verbose p op n) (fun v (f, w) => f v w) · e)
            (f v w) := by
      refine (matches_bind op _ c).trans ((matches_refl op c).andThen fun f d hf => ?_)
      refine (matches_bind p _ d).trans ((matches_refl p d).andThen fun w e hw => ?_)
      have hround : RoundSucceeds rules verbose p op c (f, w) e := ⟨d, hf, hw⟩
      have hlt := hn ▸ hround.unreadCount_lt (hp c _ e hround)
      exact matches_applied f v w fun u _ => ih _ hlt u e rfl
    have hunroll := (agreeAt_iff_matches.1 (hrest v c)).trans
      ((matches_orElse _ _ c).trans (hpair.orElse fun _ => matches_pure v c))
    simp only [← foldWhile_chainRound_unroll (hp c)] at hunroll
    exact hunroll

theorem agree_chainLeft (hrest : ∀ v, Agree rules verbose (rest v) (chainRest p op rest v)) :
    Agree rules verbose (p.chainLeft op) (p.bind rest) := by
  intro c
  rw [agreeAt_iff_matches]
  have hloop : Run.Matches ((p.chainLeft op).run rules verbose · c) fun n =>
      (p.run rules verbose n c).andThen fun v d =>
        Run.foldWhile (chainRound rules verbose p op n) (fun v (f, w) => f v w) v d :=
    matches_succ _ c
  refine hloop.trans (.trans ?_ (matches_bind p rest c).symm)
  exact (matches_refl p c).andThen fun v d _ => (matches_foldWhile hp hrest v d).symm

end
end

/-! ### How a chain ends -/

/-- A first operand and complete pairs lie between `c` and `d`, and `v` is the left fold of the
operators over the operands. -/
def ChainsTo (rules : Rules ρ) (verbose : Bool) (operand : Parser ρ α)
    (operator : Parser ρ (α → α → Except Fault α)) (c : Cursor) (v : α) (d : Cursor) : Prop :=
  ∃ v₀ c₀ pairs, operand.Succeeds rules verbose c v₀ c₀ ∧
    Run.Successive (RoundSucceeds rules verbose operand operator) c₀ pairs d ∧
    pairs.foldlM (fun v (f, w) => f v w) v₀ = .ok v

section
variable {e : Cursor} {u : α}

theorem ChainsTo.one (hv : p.Succeeds rules verbose c v d) : ChainsTo rules verbose p op c v d :=
  ⟨v, d, [], hv, .nil d, rfl⟩

theorem ChainsTo.more {x : (α → α → Except Fault α) × α} (hv : ChainsTo rules verbose p op c v d)
    (hx : RoundSucceeds rules verbose p op d x e) (hu : x.1 v x.2 = .ok u) :
    ChainsTo rules verbose p op c u e := by
  obtain ⟨v₀, c₀, pairs, hv₀, hpairs, hfold⟩ := hv
  refine ⟨v₀, c₀, pairs ++ [x], hv₀, Run.Successive.append_singleton_iff.2 ⟨d, hpairs, hx⟩, ?_⟩
  rw [List.foldlM_append, hfold]
  exact (bind_pure (x.1 v x.2)).trans hu

/-- Chains by their last round. -/
theorem ChainsTo.induction
    {motive : (d : Cursor) → (v : α) → ChainsTo rules verbose p op c v d → Prop}
    (one : ∀ v d (hv : p.Succeeds rules verbose c v d), motive d v (.one hv))
    (more : ∀ v d x u e (hv : ChainsTo rules verbose p op c v d)
      (hx : RoundSucceeds rules verbose p op d x e) (hu : x.1 v x.2 = .ok u),
      motive d v hv → motive e u (hv.more hx hu))
    (hv : ChainsTo rules verbose p op c v d) : motive d v hv := by
  obtain ⟨v₀, c₀, pairs, hv₀, hpairs, hfold⟩ := hv
  induction pairs using List.reverseRecOn generalizing v d with
  | nil =>
    cases hpairs
    cases hfold
    exact one v₀ c₀ hv₀
  | append_singleton pairs x ih =>
    obtain ⟨e, hpairs, hx⟩ := Run.Successive.append_singleton_iff.1 hpairs
    rw [List.foldlM_append] at hfold
    cases hfront : pairs.foldlM (fun v (f, w) => f v w) v₀ with
    | error e => rw [hfront] at hfold; cases hfold
    | ok u =>
      rw [hfront] at hfold
      have hu : x.1 u x.2 = .ok v := (bind_pure (x.1 u x.2)).symm.trans hfold
      exact more u e x v d ⟨v₀, c₀, pairs, hv₀, hpairs, hfront⟩ hx hu (ih hpairs hfront)

end

/-- A chain fails only at its first operand. -/
theorem chainLeft_fails_iff {f : Failure} {es : List Event} :
    (p.chainLeft op).Reaches rules verbose c ⟨.failure f, es⟩ ↔
      p.Reaches rules verbose c ⟨.failure f, es⟩ := by
  constructor
  · rintro ⟨-, _ | n, hn⟩
    · cases hn
    · refine ⟨by simp [Run.TooDeep], n, ?_⟩
      simp only [run, Run.andThen] at hn
      split at hn
      · exact absurd (congrArg Recorded.result hn) (Run.foldWhile_ne_failure f)
      · next e he => rw [← hn, ← he]
      · cases hn
  · rintro ⟨-, n, hn⟩
    exact ⟨by simp [Run.TooDeep], n + 1, by simp only [run, hn, Run.andThen]⟩

theorem chainLeft_succeeds_iff : (p.chainLeft op).Succeeds rules verbose c v d ↔
    ChainsTo rules verbose p op c v d ∧ RoundFails rules verbose p op d := by
  refine (comesTo_succ_iff (o := .success v d) (by simp)).trans
    (((settled_run p c).comesTo_andThen_success_iff (settled_chain p op)).trans ?_)
  simp only [Run.Settled.foldWhile_success_iff (settled_chainRound p op)
    (advances_chainRound p op), stepsOf_chainRound, chainRound_failure_iff]
  constructor
  · rintro ⟨v₀, c₀, hv₀, pairs, hpairs, hfold, hfails⟩
    exact ⟨⟨v₀, c₀, pairs, hv₀, hpairs, hfold⟩, hfails⟩
  · rintro ⟨⟨v₀, c₀, pairs, hv₀, hpairs, hfold⟩, hfails⟩
    exact ⟨v₀, c₀, hv₀, pairs, hpairs, hfold, hfails⟩

section
variable (hp : ∀ c x e, RoundSucceeds rules verbose p op c x e → c.offset < e.offset)
include hp

theorem unreadCount_lt_of_stepsOf (c : Cursor) (x : (α → α → Except Fault α) × α) (e : Cursor)
    (hx : Run.StepsOf (chainRound rules verbose p op) c x e) : e.unreadCount < c.unreadCount := by
  rw [stepsOf_chainRound] at hx
  exact hx.unreadCount_lt (hp c x e hx)

theorem comesTo_chainLeft_abort_iff {a : Abort} (ha : a ≠ .tooDeep) :
    Run.ComesTo ((p.chainLeft op).run rules verbose · c) (.abort a) ↔
      Run.ComesTo (p.run rules verbose · c) (.abort a) ∨
        ∃ v d, ChainsTo rules verbose p op c v d ∧
          (RoundAborts rules verbose p op d a ∨
            ∃ e, a = .fault e ∧ RoundRaises rules verbose p op v d e) := by
  refine (comesTo_succ_iff (o := .abort a) (by simpa using ha)).trans
    (((settled_run p c).comesTo_andThen_abort_iff (settled_chain p op) ha).trans
      (or_congr_right ?_))
  simp only [Run.Settled.foldWhile_abort_iff (settled_chainRound p op) (advances_chainRound p op)
    (unreadCount_lt_of_stepsOf hp) ha, stepsOf_chainRound, chainRound_abort_iff ha]
  constructor
  · rintro ⟨v₀, c₀, hv₀, pairs, v, d, hpairs, hfold, h⟩
    refine ⟨v, d, ⟨v₀, c₀, pairs, hv₀, hpairs, hfold⟩, h.imp_right ?_⟩
    rintro ⟨⟨f, w⟩, x, e, hx, he, rfl⟩
    exact ⟨e, rfl, f, w, x, hx, he⟩
  · rintro ⟨v, d, ⟨v₀, c₀, pairs, hv₀, hpairs, hfold⟩, h⟩
    refine ⟨v₀, c₀, hv₀, pairs, v, d, hpairs, hfold, h.imp_right ?_⟩
    rintro ⟨e, rfl, f, w, x, hx, he⟩
    exact ⟨(f, w), x, e, hx, he, rfl⟩

theorem chainLeft_aborts_iff {a : Abort} : (p.chainLeft op).Aborts rules verbose c a ↔
    p.Aborts rules verbose c a ∨ ∃ v d, ChainsTo rules verbose p op c v d ∧
      (RoundAborts rules verbose p op d a ∨
        ∃ e, a = .fault e ∧ RoundRaises rules verbose p op v d e) := by
  constructor
  · rintro ⟨ha, h⟩
    exact ((comesTo_chainLeft_abort_iff hp ha).1 h).imp_left fun h => ⟨ha, h⟩
  · intro h
    have ha : a ≠ .tooDeep := by
      rcases h with h | ⟨v, d, -, (h | ⟨_, _, -, h⟩) | ⟨_, rfl, -⟩⟩
      · exact h.1
      · exact h.1
      · exact h.1
      · simp
    exact ⟨ha, (comesTo_chainLeft_abort_iff hp ha).2 (h.imp_left And.right)⟩

end

/-- `rest` is the recursive parser of what follows an operand. The chain reaches the runs of an
operand with `rest` behind it, also for every other solution of that recursion. It fails as its
first operand does. Its value is the left fold over the complete pairs, and it ends in front of the
pair that fails. It aborts as its first operand or the last pair does, or with the fault of an
operator that is applied as soon as its operand is read. -/
theorem chainLeft_is_recursive (rules : Rules ρ) (verbose : Bool) (p : Parser ρ α)
    (op : Parser ρ (α → α → Except Fault α))
    (hp : ∀ c x e, RoundSucceeds rules verbose p op c x e → c.offset < e.offset) :
    let rest (v : α) : Parser (Extended ρ α α) α := .ref (.own v rfl)
    let recursive := rules.extend (chainRest p.lift op.lift rest)
    (∀ c r, (p.chainLeft op).Reaches rules verbose c r ↔
      (p.lift.bind rest).Reaches recursive verbose c r) ∧
    (∀ rest : α → Parser ρ α, (∀ v, Agree rules verbose (rest v) (chainRest p op rest v)) →
      Agree rules verbose (p.chainLeft op) (p.bind rest)) ∧
    (∀ c f es, (p.chainLeft op).Reaches rules verbose c ⟨.failure f, es⟩ ↔
      p.Reaches rules verbose c ⟨.failure f, es⟩) ∧
    (∀ c v d, (p.chainLeft op).Succeeds rules verbose c v d ↔
      ChainsTo rules verbose p op c v d ∧ RoundFails rules verbose p op d) ∧
    (∀ c a, (p.chainLeft op).Aborts rules verbose c a ↔
      p.Aborts rules verbose c a ∨ ∃ v d, ChainsTo rules verbose p op c v d ∧
        (RoundAborts rules verbose p op d a ∨
          ∃ e, a = .fault e ∧ RoundRaises rules verbose p op v d e)) := by
  intro rest recursive
  have hlift : ∀ c x e, RoundSucceeds recursive verbose p.lift op.lift c x e →
      c.offset < e.offset := by
    rintro c x e ⟨d, hf, hw⟩
    exact hp c x e ⟨d, succeeds_lift_iff.1 hf, succeeds_lift_iff.1 hw⟩
  have hrest (v : α) : Agree recursive verbose (rest v) (chainRest p.lift op.lift rest v) :=
    fun c => agreeAt_iff_matches.2 (matches_succ (rest v) c)
  refine ⟨fun c r => ?_, fun rest => agree_chainLeft hp, fun c f es => chainLeft_fails_iff,
    fun c v d => chainLeft_succeeds_iff, fun c a => chainLeft_aborts_iff hp⟩
  exact reaches_lift_iff.symm.trans (agree_chainLeft hlift hrest c r)

/-- Two pairs and an operator without an operand; and then an operand that the operator refuses,
with another pair behind it. -/
theorem chainLeft_is_recursive_differences :
    let rules : Rules fun _ => Empty := fun _ r => r.elim
    let p : Parser (fun _ => Empty) Text := (delay "operand" anyChar).map fun x => [x]
    let op : Parser (fun _ => Empty) (Text → Text → Except Fault Text) := (char '-').bind fun _ =>
      .pure fun v w => if w = "0" then .error .wrongOperand else .ok ("(" ++ v ++ "-" ++ w ++ ")")
    let rest (v : Text) : Parser (Extended (fun _ => Empty) Text Text) Text := .ref (.own v rfl)
    let recursive := rules.extend (chainRest p.lift op.lift rest)
    let c : Cursor := .start "1-2-3-" []
    let d : Cursor := ⟨c.text, 5, ⟨1, 6, []⟩⟩
    let c' : Cursor := .start "1-0-3" []
    let r : Run Text := ⟨.success "((1-2)-3)" d, List.replicate 4 (.built "operand")⟩
    let r' : Run Text := ⟨.abort (.fault .wrongOperand), List.replicate 2 (.built "operand")⟩
    (∀ c x e, RoundSucceeds rules true p op c x e → c.offset < e.offset) ∧
      (p.chainLeft op).Reaches rules true c r ∧ (p.lift.bind rest).Reaches recursive true c r ∧
      RoundFails rules true p op d ∧
      (p.chainLeft op).Reaches rules true c' r' ∧
      (p.lift.bind rest).Reaches recursive true c' r' := by
  intro rules p op rest recursive c d c' r r'
  have hop : op.Consumes rules true := (Consumes.satisfy _ _).bind
  have hp : ∀ c x e, RoundSucceeds rules true p op c x e → c.offset < e.offset :=
    fun c x e hx => hx.offset_lt hop
  obtain ⟨hrecursive, -, -, hsucceeds, -⟩ := chainLeft_is_recursive rules true p op hp
  have hresult : ((p.chainLeft op).run rules true 6 c).result = .success "((1-2)-3)" d := by
    decide +kernel
  have hreaches : (p.chainLeft op).Reaches rules true c r :=
    reaches_of_run (by simp) hresult (by decide +kernel)
  have hreaches' : (p.chainLeft op).Reaches rules true c' r' :=
    reaches_of_run (n := 6) (by simp) (by decide +kernel) (by decide +kernel)
  exact ⟨hp, hreaches, (hrecursive c r).1 hreaches,
    ((hsucceeds c _ d).1 ⟨6, hresult⟩).2, hreaches', (hrecursive c' r').1 hreaches'⟩

end Parser
end Descent
