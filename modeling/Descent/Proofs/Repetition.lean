import Descent.Proofs.Agreement
import Descent.Proofs.Guarded
import Descent.Proofs.Recursion
import Descent.Proofs.Settling

/-!
# Repetitions are recursive parsers

`p.many` is a loop that collects values. If `p` advances whenever it succeeds, then the loop is the
recursive parser that reads a `p` and then itself, or else nothing: it reaches the same runs, with
the same events, and it is the only solution of that recursion (`Parser.many_is_recursive`). The
solution is unique because whatever follows a `p` starts further on in the text.
-/

namespace Descent

namespace Run

variable {α : Type} {step : Cursor → Run α} {c : Cursor}

theorem collect_ne_failure (f : Failure) : (collect step c).result ≠ .failure f := by
  intro h
  simp only [collect, Recorded.map] at h
  cases hr : (foldWhile step (fun vs v => .ok (v :: vs)) [] c).result with
  | failure e => exact foldWhile_ne_failure e hr
  | success | abort => simp [hr, Outcome.tryMap] at h

/-- One round, and if it succeeds, the repetition behind it with its value in front. -/
theorem collect_unroll
    (h : ∀ v d, (step c).result = .success v d → d.unreadCount < c.unreadCount) :
    collect step c = ((step c).andThen fun v d =>
      Recorded.map (·.tryMap fun vs => .ok (v :: vs)) (collect step d)).orElse
        fun _ => success [] c := by
  rw [collect_eq, andThen, orElse]
  cases hr : (step c).result with
  | failure f => simp [success, Recorded.after]
  | abort a => rfl
  | success v d =>
    simp only [h v d hr, if_true, Recorded.after, Recorded.map]
    cases hd : (collect step d).result with
    | failure f => exact absurd hd (collect_ne_failure f)
    | success | abort => simp [Outcome.tryMap]

end Run

namespace Parser

variable {ρ : Type → Type} {rules : Rules ρ} {verbose : Bool} {α : Type} {p : Parser ρ α}
  {c d : Cursor} {v : α}

/-! ### The recursion -/

theorem matches_many (p : Parser ρ α) (c : Cursor) :
    Run.Matches (p.many.run rules verbose · c) fun n => Run.collect (p.run rules verbose n) c :=
  matches_succ _ c

theorem matches_some (p : Parser ρ α) (c : Cursor) :
    Run.Matches (p.some.run rules verbose · c) fun n =>
      (p.run rules verbose n c).andThen fun v d => Recorded.map (·.tryMap fun vs => .ok (v :: vs))
        (Run.collect (p.run rules verbose n) d) := by
  refine (matches_bind p _ c).trans ((matches_refl p c).andThen fun v d _ => ?_)
  exact (matches_tryMap _ p.many d).trans ((matches_many p d).tryMap _)

theorem many_unroll (hp : ∀ v d, p.Succeeds rules verbose c v d → c.offset < d.offset) :
    AgreeAt rules verbose c p.many (p.some.orElse (.pure [])) := by
  rw [agreeAt_iff_matches]
  have hmany : Run.Matches (p.many.run rules verbose · c) _ := matches_many p c
  have hunroll (n : Nat) := Run.collect_unroll
    fun v d (hv : (p.run rules verbose n c).result = .success v d) =>
      Succeeds.unreadCount_lt ⟨n, hv⟩ (hp v d ⟨n, hv⟩)
  simp only [hunroll] at hmany
  refine hmany.trans (.symm ((matches_orElse p.some _ c).trans ?_))
  exact (matches_some p c).orElse fun _ => matches_pure [] c

/-- Both sides take the first `p` alike, and what is behind it lies further on. -/
theorem agree_many_of_unroll
    (hp : ∀ c v d, p.Succeeds rules verbose c v d → c.offset < d.offset) {q : Parser ρ (List α)}
    (hq : Agree rules verbose q ((p.bind fun v => q.map (v :: ·)).orElse (.pure []))) :
    Agree rules verbose q p.many := by
  intro c
  induction hn : c.unreadCount using Nat.strongRecOn generalizing c with
  | _ n ih =>
    have hrest : ∀ v d, p.Succeeds rules verbose c v d →
        AgreeAt rules verbose d (q.map (v :: ·)) (p.many.map (v :: ·)) := by
      intro v d hv
      have hd : d.unreadCount < n := hn ▸ hv.unreadCount_lt (hp c v d hv)
      exact (ih _ hd d rfl).tryMap _
    have hbody : AgreeAt rules verbose c ((p.bind fun v => q.map (v :: ·)).orElse (.pure []))
        (p.some.orElse (.pure [])) :=
      ((Agree.refl p c).bind hrest).orElse (Agree.refl _ c)
    exact (hq c).trans (hbody.trans (many_unroll (hp c)).symm)

/-! ### How a repetition ends -/

theorem foldlM_cons (vs acc : List α) :
    vs.foldlM (fun vs v => (.ok (v :: vs) : Except Fault (List α))) acc =
      .ok (vs.reverse ++ acc) := by
  induction vs generalizing acc with
  | nil => rfl
  | cons v vs ih => rw [List.reverse_cons, List.append_assoc]; exact ih (v :: acc)

theorem many_succeeds_iff {vs : List α} : p.many.Succeeds rules verbose c vs d ↔
    Run.Successive (p.Succeeds rules verbose) c vs d ∧ p.Fails rules verbose d := by
  refine (comesTo_succ_iff (o := .success vs d) (by simp)).trans
    ((Run.comesTo_map_success_iff List.reverse).trans ?_)
  simp only [Run.Settled.foldWhile_success_iff (settled_run p) (advances_succeeds p),
    foldlM_cons, List.append_nil]
  constructor
  · rintro ⟨_, ⟨us, hus, ⟨⟩, f, n, hf⟩, rfl⟩
    rw [List.reverse_reverse]
    exact ⟨hus, n, f, hf⟩
  · rintro ⟨hvs, n, f, hf⟩
    exact ⟨vs.reverse, ⟨vs, hvs, rfl, f, n, hf⟩, List.reverse_reverse vs⟩

section
variable (hp : ∀ c v d, p.Succeeds rules verbose c v d → c.offset < d.offset)
include hp

theorem unreadCount_lt_of_run (c : Cursor) (v : α) (d : Cursor)
    (hv : Run.StepsOf (run rules verbose · p) c v d) : d.unreadCount < c.unreadCount :=
  Succeeds.unreadCount_lt hv (hp c v d hv)

theorem many_aborts_iff {a : Abort} : p.many.Aborts rules verbose c a ↔
    ∃ vs d, Run.Successive (p.Succeeds rules verbose) c vs d ∧ p.Aborts rules verbose d a := by
  constructor
  · rintro ⟨ha, h⟩
    have hloop := (Run.comesTo_map_abort_iff List.reverse).1
      ((comesTo_succ_iff (by simpa using ha)).1 h)
    obtain ⟨vs, -, d, hvs, -, h | ⟨_, _, _, _, ⟨⟩, _⟩⟩ :=
      (Run.Settled.foldWhile_abort_iff (settled_run p) (advances_succeeds p)
        (unreadCount_lt_of_run hp) ha).1 hloop
    exact ⟨vs, d, hvs, ha, h⟩
  · rintro ⟨vs, d, hvs, ha, h⟩
    refine ⟨ha, (comesTo_succ_iff (by simpa using ha)).2 ?_⟩
    exact (Run.comesTo_map_abort_iff List.reverse).2
      ((Run.Settled.foldWhile_abort_iff (settled_run p) (advances_succeeds p)
        (unreadCount_lt_of_run hp) ha).2
        ⟨vs, _, d, hvs, foldlM_cons vs [], .inl h⟩)

end

theorem many_not_fails : ¬ p.many.Fails rules verbose c := by
  rintro ⟨_ | n, f, h⟩
  · cases h
  · exact Run.collect_ne_failure f h

/-- `self` is the recursive parser. The repetition reaches the runs that it reaches, and is what
every solution of the recursion agrees with. It collects the values of parses that follow on one
another and ends in front of the one that fails, or aborts as the last one does. -/
theorem many_is_recursive (rules : Rules ρ) (verbose : Bool) (p : Parser ρ α)
    (hp : ∀ c v d, p.Succeeds rules verbose c v d → c.offset < d.offset) :
    let self : Parser (Extended ρ Unit (List α)) (List α) := .ref (.own () rfl)
    let recursive := rules.extend fun _ : Unit =>
      (p.lift.bind fun x => self.map (x :: ·)).orElse (.pure [])
    (∀ c r, p.many.Reaches rules verbose c r ↔ self.Reaches recursive verbose c r) ∧
    (∀ q : Parser ρ (List α),
      Agree rules verbose q ((p.bind fun x => q.map (x :: ·)).orElse (.pure [])) ↔
        Agree rules verbose q p.many) ∧
    Agree rules verbose p.many (p.some.orElse (.pure [])) ∧
    (∀ c, ¬ p.many.Fails rules verbose c) ∧
    (∀ c vs d, p.many.Succeeds rules verbose c vs d ↔
      Run.Successive (p.Succeeds rules verbose) c vs d ∧ p.Fails rules verbose d) ∧
    (∀ c a, p.many.Aborts rules verbose c a ↔
      ∃ vs d, Run.Successive (p.Succeeds rules verbose) c vs d ∧ p.Aborts rules verbose d a) := by
  intro self recursive
  have hunroll : Agree rules verbose p.many (p.some.orElse (.pure [])) :=
    fun c => many_unroll (hp c)
  have hlift : ∀ c v d, p.lift.Succeeds recursive verbose c v d → c.offset < d.offset :=
    fun c v d hv => hp c v d (succeeds_lift_iff.1 hv)
  have hself : Agree recursive verbose self p.lift.many :=
    agree_many_of_unroll hlift fun c => agreeAt_iff_matches.2 (matches_succ self c)
  refine ⟨fun c r => ?_, fun q => ⟨agree_many_of_unroll hp, fun hq => ?_⟩, hunroll,
    fun c => many_not_fails, fun c vs d => many_succeeds_iff, fun c a => many_aborts_iff hp⟩
  · exact reaches_lift_iff.symm.trans (hself c r).symm
  · refine hq.trans (hunroll.trans fun c => ?_)
    have hsome : Agree rules verbose p.some (p.bind fun x => q.map (x :: ·)) :=
      (Agree.refl p).bind fun v d => (hq d).symm.tryMap _
    exact (hsome c).orElse (Agree.refl _ c)

/-- The last round takes the first of its two characters, and gives it back. -/
theorem many_is_recursive_pairs :
    let rules : Rules fun _ => Empty := fun _ r => r.elim
    let p : Parser (fun _ => Empty) CodePoint := (char 'a').bind fun _ => delay "second" anyChar
    let self : Parser (Extended (fun _ => Empty) Unit (List CodePoint)) (List CodePoint) :=
      .ref (.own () rfl)
    let recursive := rules.extend fun _ : Unit =>
      (p.lift.bind fun x => self.map (x :: ·)).orElse (.pure [])
    let c : Cursor := .start "abaca" []
    let d : Cursor := ⟨c.text, 4, ⟨1, 5, []⟩⟩
    let r : Run (List CodePoint) :=
      ⟨.success ['b', 'c'] d, [.built "second", .built "second", .built "second"]⟩
    (∀ c v d, p.Succeeds rules true c v d → c.offset < d.offset) ∧
      p.many.Reaches rules true c r ∧ self.Reaches recursive true c r ∧
      p.Fails rules true d := by
  intro rules p self recursive c d r
  have hp : ∀ c v d, p.Succeeds rules true c v d → c.offset < d.offset :=
    consumes_iff.1 (Consumes.satisfy _ _).bind
  obtain ⟨hself, -, -, -, hends, -⟩ := many_is_recursive rules true p hp
  have hresult : (p.many.run rules true 6 c).result = .success ['b', 'c'] d := by decide +kernel
  have hmany : p.many.Reaches rules true c r :=
    reaches_of_run (by simp) hresult (by decide +kernel)
  exact ⟨hp, hmany, (hself c r).1 hmany, ((hends c _ d).1 ⟨6, hresult⟩).2⟩

end Parser
end Descent
