import Descent.Proofs.Calls

/-!
# How repetitions end

A repetition ends as it would if it started behind any of its rounds (`Run.RoundsOf.result_eq`). It
never fails. It succeeds where a round fails (`Run.foldWhile_eq_success_iff`), aborts where a round
or a combination of values does, and is endless if every round is followed by another
(`Run.foldWhile_eq_abort_iff`). One round taken off the front, it is a sequence with an alternative
(`Run.foldWhile_unroll`). Rounds that lead from one cursor to another are steps that follow on one
another, and a left fold over their values (`Run.rounds_iff`).
-/

namespace Descent

namespace Run

variable {α β : Type}

theorem Rounds.mono {step step' : Cursor → β → Cursor → Prop} {combine : α → β → Except Fault α}
    {acc acc' : α} {c d : Cursor} (hstep : ∀ c v d, step c v d → step' c v d)
    (h : Rounds step combine acc c acc' d) : Rounds step' combine acc c acc' d := by
  induction h with
  | refl acc c => exact .refl acc c
  | head hv hacc _ ih => exact .head (hstep _ _ _ hv) hacc ih

/-- A step that takes nothing is repeated up to the round in which there is a fault. -/
theorem rounds_of_faultsAt {S : Cursor → β → Cursor → Prop} {combine : α → β → Except Fault α}
    {acc : α} {c : Cursor} {v : β} {n m : Nat} {e : Fault} (hv : S c v c)
    (h : FaultsAt combine v n acc m e) :
    ∃ acc', Rounds S combine acc c acc' c ∧ combine acc' v = .error e := by
  induction h with
  | now he => exact ⟨_, .refl _ c, he⟩
  | later hacc _ ih =>
    obtain ⟨acc', hs, he⟩ := ih
    exact ⟨acc', .head hv hacc hs, he⟩

section
variable {step : Cursor → Run β} {combine : α → β → Except Fault α} {acc acc' v : α}
  {c d : Cursor}

/-- The rounds of a repetition. -/
abbrev RoundsOf (step : Cursor → Run β) (combine : α → β → Except Fault α) :
    α → Cursor → α → Cursor → Prop :=
  Rounds (fun c v d => (step c).result = .success v d) combine

/-- A round succeeds and is followed by another. -/
def GoesOn (step : Cursor → Run β) (combine : α → β → Except Fault α) (acc : α) (c : Cursor) :
    Prop :=
  ∃ v d acc', (step c).result = .success v d ∧ combine acc v = .ok acc'

theorem foldWhile_ne_failure (f : Failure) :
    (foldWhile step combine acc c).result ≠ .failure f := by
  induction hn : c.unreadCount using Nat.strongRecOn generalizing acc c with
  | _ n ih =>
    rw [foldWhile_eq]
    split
    · simp
    · simp
    · next v d _ =>
      split
      · simp
      · next acc' _ =>
        split
        · next hd => exact ih _ (hn ▸ hd) rfl
        · cases faultAfter combine v 1 acc' <;> simp [stalled, abort, Recorded.after]

/-- Where every round takes something, there is a last one. -/
theorem exists_not_goesOn
    (hlt : ∀ c v d, (step c).result = .success v d → d.unreadCount < c.unreadCount)
    (combine : α → β → Except Fault α) (acc : α) (c : Cursor) :
    ∃ acc' d, RoundsOf step combine acc c acc' d ∧ ¬ GoesOn step combine acc' d := by
  induction hn : c.unreadCount using Nat.strongRecOn generalizing acc c with
  | _ n ih =>
    by_cases h : GoesOn step combine acc c
    · obtain ⟨v, d, acc', hv, hacc⟩ := h
      obtain ⟨acc'', e, hs, hlast⟩ := ih _ (hn ▸ hlt c v d hv) acc' d rfl
      exact ⟨acc'', e, .head hv hacc hs, hlast⟩
    · exact ⟨acc, c, .refl acc c, h⟩

section
variable (hadv : Advances fun c v d => (step c).result = .success v d)
include hadv

theorem RoundsOf.result_eq (h : RoundsOf step combine acc c acc' d) :
    (foldWhile step combine acc c).result = (foldWhile step combine acc' d).result := by
  induction h with
  | refl => rfl
  | head hv hacc _ ih => exact (foldWhile_round (hadv _ _ _ hv) hv hacc).1.trans ih

/-- A repetition without a last round never ends. -/
theorem foldWhile_eq_endless
    (h : ∀ acc' d, RoundsOf step combine acc c acc' d → GoesOn step combine acc' d) :
    (foldWhile step combine acc c).result = .abort .endless := by
  induction hn : c.unreadCount using Nat.strongRecOn generalizing acc c with
  | _ n ih =>
    obtain ⟨v, d, acc', hv, hacc⟩ := h acc c (.refl acc c)
    rcases hadv c v d hv with hd | rfl
    · rw [(foldWhile_round (.inl hd) hv hacc).1]
      exact ih _ (hn ▸ hd) (fun acc'' e hs => h acc'' e (.head hv hacc hs)) rfl
    · rw [foldWhile_eq, hv]
      simp only [hacc, Nat.lt_irrefl, if_false]
      cases hf : faultAfter combine v 1 acc' with
      | none => rfl
      | some r =>
        obtain ⟨w, hs, he⟩ :=
          rounds_of_faultsAt (S := fun c v d => (step c).result = .success v d) hv
            (faultAfter_eq_some_iff.mp hf)
        obtain ⟨v', _, _, hv', hok⟩ := h w d (.head hv hacc hs)
        cases hv.symm.trans hv'
        cases he.symm.trans hok

/-- A repetition has a last round and ends as that one says, or it never ends. -/
theorem exists_last_round (combine : α → β → Except Fault α) (acc : α) (c : Cursor) :
    (∃ acc' d, RoundsOf step combine acc c acc' d ∧ ¬ GoesOn step combine acc' d ∧
      (foldWhile step combine acc c).result = (foldWhile step combine acc' d).result) ∨
    (∀ acc' d, RoundsOf step combine acc c acc' d → GoesOn step combine acc' d) ∧
      (foldWhile step combine acc c).result = .abort .endless := by
  by_cases h : ∀ acc' d, RoundsOf step combine acc c acc' d → GoesOn step combine acc' d
  · exact .inr ⟨h, foldWhile_eq_endless hadv h⟩
  · simp only [not_forall] at h
    obtain ⟨acc', d, hs, hlast⟩ := h
    exact .inl ⟨acc', d, hs, hlast, RoundsOf.result_eq hadv hs⟩

theorem foldWhile_eq_success_iff : (foldWhile step combine acc c).result = .success v d ↔
    RoundsOf step combine acc c v d ∧ ∃ f, (step d).result = .failure f := by
  constructor
  · intro h
    obtain ⟨acc', e, hs, hlast, heq⟩ | ⟨-, hendless⟩ := exists_last_round hadv combine acc c
    · rw [heq, foldWhile_eq] at h
      split at h
      · next f hf =>
        cases h
        exact ⟨hs, f, hf⟩
      · cases h
      · next w x hw =>
        split at h
        · cases h
        · next acc'' hacc => exact absurd ⟨w, x, acc'', hw, hacc⟩ hlast
    · cases h.symm.trans hendless
  · rintro ⟨hs, f, hf⟩
    rw [RoundsOf.result_eq hadv hs, foldWhile_eq, hf]

theorem foldWhile_eq_abort_iff {a : Abort} : (foldWhile step combine acc c).result = .abort a ↔
    (∃ acc' x, RoundsOf step combine acc c acc' x ∧ ((step x).result = .abort a ∨
      ∃ v d e, (step x).result = .success v d ∧ combine acc' v = .error e ∧ a = .fault e)) ∨
    a = .endless ∧ ∀ acc' x, RoundsOf step combine acc c acc' x → GoesOn step combine acc' x := by
  constructor
  · intro h
    obtain ⟨acc', x, hs, hlast, heq⟩ | ⟨hall, hendless⟩ :=
      exists_last_round hadv combine acc c
    · refine .inl ⟨acc', x, hs, ?_⟩
      rw [heq, foldWhile_eq] at h
      split at h
      · cases h
      · next b hb => exact .inl (hb.trans (congrArg _ (Outcome.abort.inj h)))
      · next v d hv =>
        split at h
        · next e he => exact .inr ⟨v, d, e, hv, he, (Outcome.abort.inj h).symm⟩
        · next acc'' hacc => exact absurd ⟨v, d, acc'', hv, hacc⟩ hlast
    · exact .inr ⟨Outcome.abort.inj (h.symm.trans hendless), hall⟩
  · rintro (⟨acc', x, hs, h⟩ | ⟨rfl, hall⟩)
    · rw [RoundsOf.result_eq hadv hs, foldWhile_eq]
      rcases h with h | ⟨v, d, e, hv, he, rfl⟩
      · rw [h]
      · simp only [hv, he]
    · exact foldWhile_eq_endless hadv hall

end

/-- Goes on with what a callback returns, or ends in the fault that it raises. -/
def proceed (k : α → Run β) : Except Fault α → Run β
  | .ok v => k v
  | .error e => abort (.fault e)

/-- One round, and if it succeeds, the repetition behind it. -/
theorem foldWhile_unroll
    (h : ∀ v d, (step c).result = .success v d → d.unreadCount < c.unreadCount) :
    foldWhile step combine acc c = ((step c).andThen fun v d =>
      proceed (foldWhile step combine · d) (combine acc v)).orElse fun _ => success acc c := by
  rw [foldWhile_eq, andThen, orElse]
  cases hr : (step c).result with
  | failure f => simp [success, Recorded.after]
  | abort a => rfl
  | success v d =>
    cases hacc : combine acc v with
    | error e => simp [proceed, abort, Recorded.after, hacc]
    | ok acc' =>
      simp only [proceed, hacc, h v d hr, if_true, Recorded.after]
      split
      · next f hf => exact absurd hf (foldWhile_ne_failure f)
      · rfl

end

/-! ### Values of rounds -/

/-- Steps that follow on one another, with their values. -/
inductive Successive (S : Cursor → β → Cursor → Prop) : Cursor → List β → Cursor → Prop where
  | nil (c : Cursor) : Successive S c [] c
  | cons {c d e : Cursor} {v : β} {vs : List β} (h : S c v d) (hs : Successive S d vs e) :
      Successive S c (v :: vs) e

theorem Successive.append_singleton_iff {S : Cursor → β → Cursor → Prop} {c d : Cursor}
    {vs : List β} {v : β} :
    Successive S c (vs ++ [v]) d ↔ ∃ e, Successive S c vs e ∧ S e v d := by
  constructor
  · intro h
    induction vs generalizing c with
    | nil =>
      obtain _ | ⟨hv, ⟨⟩⟩ := h
      exact ⟨c, .nil c, hv⟩
    | cons u vs ih =>
      obtain _ | ⟨hu, h⟩ := h
      obtain ⟨e, hvs, hv⟩ := ih h
      exact ⟨e, .cons hu hvs, hv⟩
  · rintro ⟨e, hvs, hv⟩
    induction hvs with
    | nil => exact .cons hv (.nil d)
    | cons hu _ ih => exact .cons hu (ih hv)

/-- Rounds combine their values from the left. -/
theorem rounds_iff {S : Cursor → β → Cursor → Prop} {combine : α → β → Except Fault α}
    {acc acc' : α} {c d : Cursor} :
    Rounds S combine acc c acc' d ↔
      ∃ vs, Successive S c vs d ∧ vs.foldlM combine acc = .ok acc' := by
  constructor
  · intro h
    induction h with
    | refl acc c => exact ⟨[], .nil c, rfl⟩
    | @head acc acc' acc'' c d e v hv hacc _ ih =>
      obtain ⟨vs, hs, hfold⟩ := ih
      exact ⟨v :: vs, .cons hv hs, by rw [List.foldlM_cons, hacc]; exact hfold⟩
  · rintro ⟨vs, hs, hfold⟩
    induction hs generalizing acc with
    | nil c =>
      obtain rfl := Except.ok.inj hfold
      exact .refl acc c
    | @cons c d e v vs hv hs ih =>
      rw [List.foldlM_cons] at hfold
      cases hacc : combine acc v with
      | error x => rw [hacc] at hfold; cases hfold
      | ok acc'' => exact .head hv hacc (ih (by rw [hacc] at hfold; exact hfold))

end Run

end Descent
