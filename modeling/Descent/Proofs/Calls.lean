import Descent.Proofs.Ending
import Descent.Proofs.Evaluation
import Mathlib.Logic.Relation

/-!
# Calls

A run of a parser runs other parsers at other cursors. `T.Calls rules verbose q`: the run of the
parser of `T` at its cursor runs the parser of `q` at the cursor of `q`, as a part of a sequence, as
an alternative, in a round of a repetition, or as the rule of a reference. Depth counts such calls:
a run is cut off at depth `n` if and only if `n` calls nest (`tooDeep_iff_stacks`).
-/

namespace Descent

namespace Run

variable {α β : Type}

theorem of_andThen_eq_success {r : Run α} {k : α → Cursor → Run β} {w : β} {e : Cursor}
    (h : (r.andThen k).result = .success w e) :
    ∃ v d, r.result = .success v d ∧ (k v d).result = .success w e := by
  simp only [andThen] at h
  split at h
  · next v d hv => exact ⟨v, d, hv, h⟩
  · cases h
  · cases h

/-- Rounds that lead from one cursor to another, and what they make of a value. -/
inductive Rounds (step : Cursor → β → Cursor → Prop) (combine : α → β → Except Fault α) :
    α → Cursor → α → Cursor → Prop where
  | refl (acc : α) (c : Cursor) : Rounds step combine acc c acc c
  | head {acc acc' acc'' : α} {c d e : Cursor} {v : β} (h : step c v d)
      (hv : combine acc v = .ok acc') (hs : Rounds step combine acc' d acc'' e) :
      Rounds step combine acc c acc'' e

/-- A step takes something, or it stays where it is. -/
def Advances (step : Cursor → β → Cursor → Prop) : Prop :=
  ∀ c v d, step c v d → d.unreadCount < c.unreadCount ∨ d = c

/-! ### Where a run is cut off -/

/-- `S` holds of the successes of a run, and of no others unless the run is cut off. -/
structure Decides (S : α → Cursor → Prop) (r : Run α) : Prop where
  of_success : ∀ v d, r.result = .success v d → S v d
  success : ∀ v d, S v d → r.TooDeep ∨ r.result = .success v d

section
variable {r : Run α} {S : α → Cursor → Prop}

theorem tooDeep_andThen_iff {k : α → Cursor → Run β} (hr : Decides S r) :
    (r.andThen k).TooDeep ↔ r.TooDeep ∨ ∃ v d, S v d ∧ (k v d).TooDeep := by
  constructor
  · intro h
    simp only [TooDeep, andThen] at h
    split at h
    · next v d hv => exact .inr ⟨v, d, hr.of_success v d hv, h⟩
    · cases h
    · next a ha => exact .inl (ha.trans (congrArg _ (Outcome.abort.inj h)))
  · have hdeep (h : r.TooDeep) : (r.andThen k).TooDeep := by
      simp only [TooDeep, andThen, show r.result = _ from h]
    rintro (h | ⟨v, d, hv, h⟩)
    · exact hdeep h
    · rcases hr.success v d hv with hr | hr
      · exact hdeep hr
      · simp only [TooDeep, andThen, hr]; exact h

theorem tooDeep_orElse_iff {q : Unit → Run α} {F : Prop}
    (hF : (∃ f, r.result = .failure f) → F) (hF' : F → r.TooDeep ∨ ∃ f, r.result = .failure f) :
    (r.orElse q).TooDeep ↔ r.TooDeep ∨ F ∧ (q ()).TooDeep := by
  constructor
  · intro h
    simp only [TooDeep, orElse] at h
    split at h
    · next f hf => exact .inr ⟨hF ⟨f, hf⟩, h⟩
    · exact .inl h
  · have hdeep (h : r.TooDeep) : (r.orElse q).TooDeep := by
      simp only [TooDeep, orElse, show r.result = _ from h]
    rintro (h | ⟨hf, h⟩)
    · exact hdeep h
    · rcases hF' hf with hr | ⟨f, hf⟩
      · exact hdeep hr
      · simp only [TooDeep, orElse, hf]; exact h

/-- The alternatives in front of the one that is cut off have failed. -/
theorem tooDeep_firstOf_iff {n : Nat} {attempt : Fin n → Unit → Run α} {last : Failure}
    {F : Fin n → Prop} (hF : ∀ i, (∃ f, (attempt i ()).result = .failure f) → F i)
    (hF' : ∀ i, F i → (attempt i ()).TooDeep ∨ ∃ f, (attempt i ()).result = .failure f) :
    (firstOf last (.ofFn attempt)).TooDeep ↔
      ∃ i, (∀ j < i, F j) ∧ (attempt i ()).TooDeep := by
  induction n generalizing last with
  | zero => exact iff_of_false nofun nofun
  | succ n ih =>
    obtain ⟨last', hfirst⟩ : ∃ last', firstOf last (.ofFn attempt) =
        (attempt 0 ()).orElse fun _ => firstOf last' (.ofFn fun i => attempt i.succ) := by
      rw [List.ofFn_succ]
      simp only [firstOf, orElse]
      split
      · next f _ => exact ⟨f, rfl⟩
      · exact ⟨last, rfl⟩
    rw [hfirst, tooDeep_orElse_iff (hF 0) (hF' 0),
      ih (fun i => hF i.succ) fun i => hF' i.succ, Fin.exists_fin_succ]
    simp only [Fin.forall_fin_succ, Fin.succ_lt_succ_iff, Fin.succ_pos, forall_const]
    refine or_congr ?_ ⟨?_, ?_⟩
    · simp
    · rintro ⟨h0, i, hi, h⟩
      exact ⟨i, ⟨h0, hi⟩, h⟩
    · rintro ⟨i, ⟨h0, hi⟩, h⟩
      exact ⟨h0, i, hi, h⟩

theorem tooDeep_map_iff {f : Outcome α → Outcome β}
    (hf : ∀ o, f o = .abort .tooDeep ↔ o = .abort .tooDeep) :
    Run.TooDeep (r.map f) ↔ r.TooDeep := hf r.result

end

section
variable {step : Cursor → Run β} {S : Cursor → β → Cursor → Prop}
  {combine : α → β → Except Fault α} {acc : α} {c : Cursor}

theorem Advances.of_decides (hadv : Advances S) (hS : ∀ c, Decides (S c) (step c)) :
    Advances fun c v d => (step c).result = .success v d :=
  fun c v d hv => hadv c v d ((hS c).of_success v d hv)

theorem not_tooDeep_stalled (es : List Event) (o : Option (Nat × Fault)) :
    ¬ (stalled (α := α) es o).TooDeep := by
  cases o <;> simp [stalled, abort, TooDeep]

/-- A repetition is cut off in a round, and the rounds in front of that one have succeeded. -/
theorem tooDeep_foldWhile_iff (hS : ∀ c, Decides (S c) (step c)) (hadv : Advances S) :
    (foldWhile step combine acc c).TooDeep ↔
      ∃ acc' d, Rounds S combine acc c acc' d ∧ (step d).TooDeep := by
  have hdeep {acc : α} {c : Cursor} (h : (step c).TooDeep) :
      (foldWhile step combine acc c).TooDeep := by
    rw [foldWhile_eq, show (step c).result = _ from h]; rfl
  constructor
  · intro h
    induction hn : c.unreadCount using Nat.strongRecOn generalizing acc c with
    | _ n ih =>
      rw [foldWhile_eq] at h
      cases hr : (step c).result with
      | failure f => rw [hr] at h; exact nomatch h
      | abort a =>
        rw [hr] at h
        exact ⟨acc, c, .refl acc c, hr.trans (congrArg _ (Outcome.abort.inj h))⟩
      | success v d =>
        cases hv : combine acc v with
        | error e => simp only [hr, hv] at h; exact nomatch h
        | ok acc' =>
          by_cases hd : d.unreadCount < c.unreadCount
          · simp only [hr, hv, hd, if_true] at h
            obtain ⟨acc'', e, hs, he⟩ := ih _ (hn ▸ hd) h rfl
            exact ⟨acc'', e, .head ((hS c).of_success v d hr) hv hs, he⟩
          · simp only [hr, hv, hd, if_false] at h
            exact absurd h (not_tooDeep_stalled _ _)
  · rintro ⟨acc', d, hs, h⟩
    induction hs with
    | refl => exact hdeep h
    | @head acc acc' acc'' c d e v hstep hv hs ih =>
      rcases (hS c).success v d hstep with hr | hr
      · exact hdeep hr
      · exact (foldWhile_round (hadv c v d hstep) hr hv).1.trans (ih h)

end

end Run

namespace Outcome

variable {α β : Type} {o : Outcome α}

theorem of_tryMap_eq_success {f : α → Except Fault β} {w : β} {d : Cursor}
    (h : o.tryMap f = .success w d) : ∃ v, o = .success v d ∧ f v = .ok w := by
  cases o with
  | failure | abort => exact nomatch h
  | success v c =>
    simp only [tryMap] at h
    split at h
    · next x hx =>
      cases h
      exact ⟨v, rfl, hx⟩
    · cases h

theorem tryMap_eq_tooDeep_iff (f : α → Except Fault β) :
    o.tryMap f = .abort .tooDeep ↔ o = .abort .tooDeep := by
  cases o with
  | success v d => cases hv : f v <;> simp [tryMap, hv]
  | failure | abort => simp [tryMap]

theorem filter_eq_tooDeep_iff (accepts : α → Except Fault Bool) (shown : α → Except Fault Text)
    (description : Text) (start : Position) :
    o.filter accepts shown description start = .abort .tooDeep ↔ o = .abort .tooDeep := by
  cases o with
  | success v d =>
    rcases hv : accepts v with e | _ | _
    · simp [filter, hv]
    · cases hs : shown v <;> simp [filter, hv, hs]
    · simp [filter, hv]
  | failure | abort => simp [filter]

theorem label_eq_tooDeep_iff (description : Text) (start : Position) :
    o.label description start = .abort .tooDeep ↔ o = .abort .tooDeep := by
  cases o <;> simp [label]

end Outcome

theorem Run.tooDeep_traced_iff {α : Type} {r : Run α} (name : Text) (shown : α → Except Fault Text)
    (start : Position) : (r.traced name shown start).TooDeep ↔ r.TooDeep := by
  show (Run.tracedEnd name shown r.result).result = _ ↔ r.result = _
  cases r.result with
  | success v d => cases hv : shown v <;> simp [Run.tracedEnd, hv]
  | failure | abort => simp [Run.tracedEnd]

/-- A parser at a cursor. -/
structure Task (ρ : Type → Type) where
  {α : Type}
  parser : Parser ρ α
  cursor : Cursor

namespace Parser

variable {ρ : Type → Type} {rules : Rules ρ} {verbose : Bool} {α β : Type}

def Succeeds (rules : Rules ρ) (verbose : Bool) (p : Parser ρ α) (c : Cursor) (v : α) (d : Cursor) :
    Prop :=
  ∃ n, (p.run rules verbose n c).result = .success v d

def Fails (rules : Rules ρ) (verbose : Bool) (p : Parser ρ α) (c : Cursor) : Prop :=
  ∃ n f, (p.run rules verbose n c).result = .failure f

/-- A round of a chain that succeeds. -/
def RoundSucceeds (rules : Rules ρ) (verbose : Bool) (operand : Parser ρ α)
    (operator : Parser ρ (α → α → Except Fault α)) (c : Cursor)
    (v : (α → α → Except Fault α) × α) (e : Cursor) : Prop :=
  ∃ d, operator.Succeeds rules verbose c v.1 d ∧ operand.Succeeds rules verbose d v.2 e

end Parser

/-! ### What a success takes -/

/-- `s` is what lies between `c` and `d`. -/
def Cursor.Leads (c : Cursor) (s : Text) (d : Cursor) : Prop :=
  c.unread = s ++ d.unread ∧ d = c.skip s

namespace Cursor.Leads

variable {c d e : Cursor} {s t : Text}

theorem refl (c : Cursor) : c.Leads [] c := ⟨rfl, rfl⟩

theorem trans (h : c.Leads s d) (h' : d.Leads t e) : c.Leads (s ++ t) e :=
  ⟨by rw [h.1, h'.1, List.append_assoc], by rw [h'.2, h.2, Cursor.skip_append]⟩

theorem offset (h : c.Leads s d) : d.offset = c.offset + s.length := by rw [h.2]; rfl

theorem unreadCount_lt (h : c.Leads s d) (hs : s ≠ []) : d.unreadCount < c.unreadCount := by
  rw [h.2]
  exact (Cursor.unreadCount_skip h.1).2 hs

theorem countP_eq (h : c.Leads s d) (opens : CodePoint → Bool) :
    c.unread.countP opens = s.countP opens + d.unread.countP opens := by
  rw [h.1, List.countP_append]

end Cursor.Leads

theorem Run.Rounds.leads {α β : Type} {step : Cursor → β → Cursor → Prop}
    {combine : α → β → Except Fault α} {acc acc' : α} {c d : Cursor}
    (h : Run.Rounds step combine acc c acc' d) (hstep : ∀ c v d, step c v d → ∃ s, c.Leads s d) :
    ∃ s, c.Leads s d := by
  induction h with
  | refl acc c => exact ⟨[], .refl c⟩
  | head hv _ _ ih =>
    obtain ⟨s, hs⟩ := hstep _ _ _ hv
    obtain ⟨u, hu⟩ := ih
    exact ⟨s ++ u, hs.trans hu⟩

theorem Run.advances_of_leads {β : Type} {step : Cursor → β → Cursor → Prop}
    (hstep : ∀ c v d, step c v d → ∃ s, c.Leads s d) : Run.Advances step := by
  intro c v d h
  obtain ⟨s, hs⟩ := hstep c v d h
  by_cases hnil : s = []
  · exact .inr (by rw [hs.2, hnil, Cursor.skip_nil])
  · exact .inl (hs.unreadCount_lt hnil)

namespace Parser

variable {ρ : Type → Type} {rules : Rules ρ} {verbose : Bool} {α β : Type} {p : Parser ρ α}
  {c d : Cursor} {v : α} {s t : Text}

theorem Succeeds.took (h : p.Succeeds rules verbose c v d) :
    ∃ s, p.Answers rules verbose c.unread (.took v s) ∧ c.Leads s d := by
  rcases h with ⟨n, hn⟩
  obtain ⟨a, ns, ha⟩ := p.uniform_run rules verbose n c.unread
  rw [ha.result c rfl] at hn
  cases a with
  | took w s =>
    cases hn
    obtain ⟨u, hu⟩ : s <+: c.unread := ha.within
    refine ⟨s, ⟨nofun, n, ns, ha⟩, ?_, rfl⟩
    rw [Cursor.unread_skip hu.symm, hu]
  | missed | stopped => exact nomatch hn

theorem Answers.succeeds (h : p.Answers rules verbose t (.took v s)) (hc : c.unread = t) :
    p.Succeeds rules verbose c v (c.skip s) := by
  obtain ⟨r, ⟨-, n, rfl⟩, hr⟩ := h.reaches hc
  exact ⟨n, hr⟩

theorem Misses.fails (h : p.Misses rules verbose t) (hc : c.unread = t) :
    p.Fails rules verbose c := by
  obtain ⟨s, message, h⟩ := h
  obtain ⟨r, ⟨-, n, rfl⟩, hr⟩ := h.reaches hc
  exact ⟨n, _, hr⟩

theorem Succeeds.leads (h : p.Succeeds rules verbose c v d) : ∃ s, c.Leads s d := by
  obtain ⟨s, -, hs⟩ := h.took
  exact ⟨s, hs⟩

theorem Succeeds.of_bind {k : α → Parser ρ β} {w : β} {e : Cursor}
    (h : (p.bind k).Succeeds rules verbose c w e) :
    ∃ v d, p.Succeeds rules verbose c v d ∧ (k v).Succeeds rules verbose d w e := by
  rcases h with ⟨_ | n, h⟩
  · exact nomatch h
  · obtain ⟨v, d, hv, hw⟩ := Run.of_andThen_eq_success h
    exact ⟨v, d, ⟨n, hv⟩, n, hw⟩

theorem Succeeds.of_tryMap {f : α → Except Fault β} {w : β}
    (h : (p.tryMap f).Succeeds rules verbose c w d) :
    ∃ v, p.Succeeds rules verbose c v d ∧ f v = .ok w := by
  rcases h with ⟨_ | n, h⟩
  · exact nomatch h
  · obtain ⟨v, hv, hw⟩ := Outcome.of_tryMap_eq_success h
    exact ⟨v, ⟨n, hv⟩, hw⟩

theorem Succeeds.of_orElse {q : Parser ρ α} (h : (p.orElse q).Succeeds rules verbose c v d) :
    p.Succeeds rules verbose c v d ∨ q.Succeeds rules verbose c v d := by
  rcases h with ⟨_ | n, h⟩
  · exact nomatch h
  · simp only [Parser.run, Run.orElse] at h
    split at h
    · exact .inr ⟨n, h⟩
    · exact .inl ⟨n, h⟩

theorem RoundSucceeds.leads {operator : Parser ρ (α → α → Except Fault α)}
    {v : (α → α → Except Fault α) × α} (h : RoundSucceeds rules verbose p operator c v d) :
    ∃ s, c.Leads s d := by
  obtain ⟨e, hf, hw⟩ := h
  obtain ⟨s, hs⟩ := hf.leads
  obtain ⟨u, hu⟩ := hw.leads
  exact ⟨s ++ u, hs.trans hu⟩

theorem advances_succeeds (p : Parser ρ α) : Run.Advances (p.Succeeds rules verbose) :=
  Run.advances_of_leads fun _ _ _ h => h.leads

theorem advances_roundSucceeds (p : Parser ρ α) (operator : Parser ρ (α → α → Except Fault α)) :
    Run.Advances (RoundSucceeds rules verbose p operator) :=
  Run.advances_of_leads fun _ _ _ h => h.leads

end Parser

/-! ### The calls of a run -/

namespace Parser

variable {ρ : Type → Type} {rules : Rules ρ} {verbose : Bool} {α β : Type}

/-- The parsers that a run of `p` at `c` runs at once, with their cursors. -/
def Calls (rules : Rules ρ) (verbose : Bool) : {α : Type} → Parser ρ α → Cursor → Task ρ → Prop
  | _, anyChar, _, _ | _, eof, _, _ | _, pure _, _, _ | _, fail _, _, _ | _, throw _, _, _ => False
  | _, bind p k, c, q => q = ⟨p, c⟩ ∨ ∃ v d, p.Succeeds rules verbose c v d ∧ q = ⟨k v, d⟩
  | _, tryMap _ p, c, q | _, filter _ _ _ p, c, q | _, label _ p, c, q | _, trace _ _ p, c, q
  | _, delay _ p, c, q => q = ⟨p, c⟩
  | _, orElse p p', c, q => q = ⟨p, c⟩ ∨ p.Fails rules verbose c ∧ q = ⟨p', c⟩
  | _, anyOf _ ps, c, q => ∃ i, (∀ j < i, (ps j).Fails rules verbose c) ∧ q = ⟨ps i, c⟩
  | _, many p, c, q => ∃ vs d,
      Run.Rounds (p.Succeeds rules verbose) (fun vs v => .ok (v :: vs)) [] c vs d ∧ q = ⟨p, d⟩
  | _, chainLeft operand operator, c, q => q = ⟨operand, c⟩ ∨
      ∃ v d w e, operand.Succeeds rules verbose c v d ∧
        Run.Rounds (RoundSucceeds rules verbose operand operator) (fun v (f, w) => f v w) v d w e ∧
        (q = ⟨operator, e⟩ ∨ ∃ f x, operator.Succeeds rules verbose e f x ∧ q = ⟨operand, x⟩)
  | _, ref r, c, q => q = ⟨rules _ r, c⟩

variable {p : Parser ρ α} {c d : Cursor} {v : α} {n : Nat}

theorem run_eq_of_not_tooDeep {m : Nat} (hn : ¬ (p.run rules verbose n c).TooDeep)
    (hm : ¬ (p.run rules verbose m c).TooDeep) :
    p.run rules verbose n c = p.run rules verbose m c := by
  rcases Nat.le_total n m with hle | hle
  · exact (run_of_le hle hn).symm
  · exact run_of_le hle hm

theorem reaches_of_run {o : Outcome α} {es : List Event} (ho : o ≠ .abort .tooDeep)
    (hresult : (p.run rules verbose n c).result = o)
    (hevents : (p.run rules verbose n c).events = es) : p.Reaches rules verbose c ⟨o, es⟩ := by
  subst hresult hevents
  exact ⟨ho, n, rfl⟩

theorem Succeeds.run (h : p.Succeeds rules verbose c v d) (n : Nat) :
    (p.run rules verbose n c).TooDeep ∨ (p.run rules verbose n c).result = .success v d := by
  by_cases hn : (p.run rules verbose n c).TooDeep
  · exact .inl hn
  · rcases h with ⟨m, hm⟩
    rw [run_eq_of_not_tooDeep hn fun h => nomatch hm.symm.trans h]
    exact .inr hm

theorem Fails.run (h : p.Fails rules verbose c) (n : Nat) :
    (p.run rules verbose n c).TooDeep ∨ ∃ f, (p.run rules verbose n c).result = .failure f := by
  by_cases hn : (p.run rules verbose n c).TooDeep
  · exact .inl hn
  · rcases h with ⟨m, f, hm⟩
    rw [run_eq_of_not_tooDeep hn fun h => nomatch hm.symm.trans h]
    exact .inr ⟨f, hm⟩

theorem decides_run (p : Parser ρ α) (n : Nat) (c : Cursor) :
    Run.Decides (p.Succeeds rules verbose c) (p.run rules verbose n c) :=
  ⟨fun _ _ h => ⟨n, h⟩, fun _ _ h => h.run n⟩

theorem tooDeep_chainRound_iff {operand : Parser ρ α}
    {operator : Parser ρ (α → α → Except Fault α)} :
    (chainRound rules verbose operand operator n c).TooDeep ↔
      (operator.run rules verbose n c).TooDeep ∨
        ∃ f d, operator.Succeeds rules verbose c f d ∧ (operand.run rules verbose n d).TooDeep := by
  refine (Run.tooDeep_andThen_iff (decides_run operator n c)).trans (or_congr_right ?_)
  refine exists₂_congr fun f d => and_congr_right fun _ => ?_
  exact Run.tooDeep_map_iff fun o => Outcome.tryMap_eq_tooDeep_iff _

theorem of_chainRound_eq_success {operand : Parser ρ α}
    {operator : Parser ρ (α → α → Except Fault α)} {n : Nat} {c e : Cursor}
    {v : (α → α → Except Fault α) × α}
    (h : (chainRound rules verbose operand operator n c).result = .success v e) :
    ∃ d, (operator.run rules verbose n c).result = .success v.1 d ∧
      (operand.run rules verbose n d).result = .success v.2 e := by
  obtain ⟨f, d, hf, hround⟩ := Run.of_andThen_eq_success h
  simp only [Recorded.map] at hround
  obtain ⟨w, hw, hv⟩ := Outcome.of_tryMap_eq_success hround
  obtain rfl := Except.ok.inj hv
  exact ⟨d, hf, hw⟩

theorem decides_chainRound (operand : Parser ρ α) (operator : Parser ρ (α → α → Except Fault α))
    (n : Nat) (c : Cursor) : Run.Decides (RoundSucceeds rules verbose operand operator c)
      (chainRound rules verbose operand operator n c) := by
  constructor
  · intro v e h
    obtain ⟨d, hf, hw⟩ := of_chainRound_eq_success h
    exact ⟨d, ⟨n, hf⟩, n, hw⟩
  · rintro ⟨f, w⟩ e ⟨d, hf, hw⟩
    rw [tooDeep_chainRound_iff]
    rcases hf.run n with hdeep | hf'
    · exact .inl (.inl hdeep)
    rcases hw.run n with hdeep | hw'
    · exact .inl (.inr ⟨f, d, hf, hdeep⟩)
    · refine .inr ?_
      simp only [chainRound, Run.andThen, hf', Recorded.after, Recorded.map, hw']
      rfl

/-- A run is cut off if a run that it calls is, which has one unit of depth less. -/
theorem tooDeep_succ_iff (p : Parser ρ α) (c : Cursor) (n : Nat) :
    (p.run rules verbose (n + 1) c).TooDeep ↔ ∃ q : Task ρ,
      p.Calls rules verbose c q ∧ (q.parser.run rules verbose n q.cursor).TooDeep := by
  have hone {β : Type} (p : Parser ρ β) : (p.run rules verbose n c).TooDeep ↔
      ∃ q : Task ρ, q = ⟨p, c⟩ ∧ (q.parser.run rules verbose n q.cursor).TooDeep := by
    rw [exists_eq_left]
  cases p with
  | anyChar =>
    have hends : Run.Ends (fun _ => False) ⟨c.readChar, []⟩ := .readChar c
    exact iff_of_false hends.not_tooDeep fun ⟨_, hq, _⟩ => hq
  | eof =>
    have hends : Run.Ends (fun _ => False) ⟨c.readEnd, []⟩ := .readEnd c
    exact iff_of_false hends.not_tooDeep fun ⟨_, hq, _⟩ => hq
  | pure v => exact iff_of_false nofun fun ⟨_, hq, _⟩ => hq
  | fail message => exact iff_of_false nofun fun ⟨_, hq, _⟩ => hq
  | throw e => exact iff_of_false nofun fun ⟨_, hq, _⟩ => hq
  | bind p k =>
    refine (Run.tooDeep_andThen_iff (decides_run p n c)).trans ?_
    simp [Calls, or_and_right, exists_or]
  | tryMap f p =>
    exact (Run.tooDeep_map_iff fun o => Outcome.tryMap_eq_tooDeep_iff f).trans (hone p)
  | filter accepts shown description p =>
    exact (Run.tooDeep_map_iff fun o => Outcome.filter_eq_tooDeep_iff ..).trans (hone p)
  | label description p =>
    exact (Run.tooDeep_map_iff fun o => Outcome.label_eq_tooDeep_iff ..).trans (hone p)
  | orElse p p' =>
    refine (Run.tooDeep_orElse_iff (fun ⟨f, hf⟩ => ⟨n, f, hf⟩) fun h => Fails.run h n).trans ?_
    simp [Calls, or_and_right, exists_or]
  | anyOf k ps =>
    refine (Run.tooDeep_firstOf_iff (fun i ⟨f, hf⟩ => ⟨n, f, hf⟩) fun i h => Fails.run h n).trans ?_
    simp [Calls]
  | many p =>
    refine (Run.tooDeep_map_iff fun o => Outcome.tryMap_eq_tooDeep_iff _).trans ?_
    refine (Run.tooDeep_foldWhile_iff (decides_run p n) (advances_succeeds p)).trans ?_
    simp [Calls]
  | chainLeft operand operator =>
    have hrounds (v : _) (d : Cursor) :
        (Run.foldWhile (chainRound rules verbose operand operator n) (fun v (f, w) => f v w) v
          d).TooDeep ↔ _ :=
      Run.tooDeep_foldWhile_iff (decides_chainRound operand operator n)
        (advances_roundSucceeds operand operator)
    refine (Run.tooDeep_andThen_iff (decides_run operand n c)).trans
      ((or_congr_right (exists₂_congr fun v d => and_congr_right fun _ => hrounds v d)).trans ?_)
    simp only [tooDeep_chainRound_iff]
    simp [Calls, or_and_right, exists_or, and_or_left, and_assoc]
  | trace name shown p =>
    cases verbose with
    | false => exact hone p
    | true => exact (Run.tooDeep_traced_iff name shown c.position).trans (hone p)
  | delay note p => exact hone p
  | ref r => exact hone (rules _ r)

end Parser

/-! ### Calls that nest -/

namespace Task

variable {ρ : Type → Type}

def Calls (rules : Rules ρ) (verbose : Bool) (T q : Task ρ) : Prop :=
  T.parser.Calls rules verbose T.cursor q

/-- Calls that follow on one another. -/
abbrev Runs (rules : Rules ρ) (verbose : Bool) : Task ρ → Task ρ → Prop :=
  Relation.ReflTransGen (Calls rules verbose)

/-- `n` calls nest, the first of them in `T`. -/
inductive Stacks (rules : Rules ρ) (verbose : Bool) : Nat → Task ρ → Prop where
  | zero (T : Task ρ) : Stacks rules verbose 0 T
  | succ {n : Nat} {T q : Task ρ} (h : T.Calls rules verbose q)
      (hq : Stacks rules verbose n q) : Stacks rules verbose (n + 1) T

/-- `n` entries of rules nest, where `T` is the first one: each but the first is an entry through a
reference that is run in the entry before. -/
inductive Entries (rules : Rules ρ) (verbose : Bool) : Nat → Task ρ → Prop where
  | one (T : Task ρ) : Entries rules verbose 1 T
  | inner {n : Nat} {T : Task ρ} {α : Type} {r : ρ α} {d : Cursor}
      (h : T.Runs rules verbose ⟨.ref r, d⟩) (hn : Entries rules verbose n ⟨rules _ r, d⟩) :
      Entries rules verbose (n + 1) T

variable {rules : Rules ρ} {verbose : Bool}

/-- A run of depth `n` is cut off if and only if `n` calls nest in it. -/
theorem tooDeep_iff_stacks (T : Task ρ) (n : Nat) :
    (T.parser.run rules verbose n T.cursor).TooDeep ↔ T.Stacks rules verbose n := by
  induction n generalizing T with
  | zero => exact iff_of_true rfl (.zero T)
  | succ n ih =>
    rw [Parser.tooDeep_succ_iff]
    constructor
    · rintro ⟨q, hq, h⟩
      exact .succ hq ((ih q).1 h)
    · rintro (_ | ⟨hq, h⟩)
      exact ⟨_, hq, (ih _).2 h⟩

/-- Entries nest as deep as a character can be repeated that leads from one to the next. -/
theorem entries_replicate {α : Type} {r : ρ α} {x : CodePoint}
    (hruns : ∀ c n, c.unread = List.replicate (n + 1) x →
      Runs rules verbose ⟨rules _ r, c⟩ ⟨.ref r, c.skip [x]⟩) {n : Nat} {c : Cursor}
    (hc : c.unread = List.replicate n x) : Entries rules verbose (n + 1) ⟨rules _ r, c⟩ := by
  induction n generalizing c with
  | zero => exact .one _
  | succ n ih => exact .inner (hruns c n hc) (ih (Cursor.unread_skip (s := [x]) hc))

end Task
end Descent
