import Descent.Proofs.Rounds

/-!
# What runs come to with depth enough

A family of runs has one run for each depth. It is settled if more depth changes no run that had
enough. Such families are closed under the operations on runs, and what a sequence or a repetition
comes to is told by what its parts come to, whatever depth each of them needs
(`Run.Settled.comesTo_andThen_iff`, `Run.Settled.foldWhile_success_iff`,
`Run.Settled.foldWhile_abort_iff`). The runs of a parser are such a family, and so are the rounds of
a chain. So a sequence or an alternative succeeds, fails or aborts as its parts do.
-/

namespace Descent

namespace Run

variable {α β : Type}

/-- More depth changes no run of the family that had enough. -/
def Settled (r : Nat → Run α) : Prop := ∀ n m, n ≤ m → ¬ (r n).TooDeep → r m = r n

/-- One of the runs ends in `o`. -/
def ComesTo (r : Nat → Run α) (o : Outcome α) : Prop := ∃ n, (r n).result = o

/-- The steps of a repetition that succeed, with depth enough for each of them. -/
def StepsOf (step : Nat → Cursor → Run β) (c : Cursor) (v : β) (d : Cursor) : Prop :=
  ComesTo (step · c) (.success v d)

theorem Advances.at {step : Nat → Cursor → Run β} (h : Advances (StepsOf step)) (n : Nat) :
    Advances fun c v d => (step n c).result = .success v d :=
  fun c v d hv => h c v d ⟨n, hv⟩

section
variable {r : Nat → Run α} (g : α → β)

theorem comesTo_map_success_iff {w : β} {d : Cursor} :
    ComesTo (fun n => Recorded.map (·.tryMap fun v => .ok (g v)) (r n)) (.success w d) ↔
      ∃ v, ComesTo r (.success v d) ∧ g v = w := by
  have hone (o : Outcome α) :
      (o.tryMap fun v => .ok (g v)) = .success w d ↔ ∃ v, o = .success v d ∧ g v = w := by
    cases o <;> simp [Outcome.tryMap, and_comm]
  simp only [ComesTo, Recorded.map, hone, exists_and_right, exists_comm (α := Nat)]

theorem comesTo_map_failure_iff {f : Failure} :
    ComesTo (fun n => Recorded.map (·.tryMap fun v => .ok (g v)) (r n)) (.failure f) ↔
      ComesTo r (.failure f) := by
  refine exists_congr fun n => ?_
  simp only [Recorded.map]
  cases (r n).result <;> simp [Outcome.tryMap]

theorem comesTo_map_abort_iff {a : Abort} :
    ComesTo (fun n => Recorded.map (·.tryMap fun v => .ok (g v)) (r n)) (.abort a) ↔
      ComesTo r (.abort a) := by
  refine exists_congr fun n => ?_
  simp only [Recorded.map]
  cases (r n).result <;> simp [Outcome.tryMap]

end

namespace Settled

variable {r : Nat → Run α} {o : Outcome α}

theorem andThen {k : α → Cursor → Nat → Run β} (hr : Settled r) (hk : ∀ v d, Settled (k v d)) :
    Settled fun n => (r n).andThen fun v d => k v d n :=
  fun n m hnm => andThen_congr (hr n m hnm) fun v d => hk v d n m hnm

theorem tryMap (f : α → Except Fault β) (hr : Settled r) :
    Settled fun n => Recorded.map (·.tryMap f) (r n) :=
  fun n m hnm => map_congr rfl (hr n m hnm)

theorem foldWhile {step : Nat → Cursor → Run β} (hstep : ∀ c, Settled (step · c))
    (combine : α → β → Except Fault α) (acc : α) (c : Cursor) :
    Settled fun n => foldWhile (step n) combine acc c :=
  fun n m hnm => foldWhile_congr fun d => hstep d n m hnm

theorem eventually (hr : Settled r) (h : ComesTo r o) (ho : o ≠ .abort .tooDeep) :
    ∃ m, ∀ n, m ≤ n → (r n).result = o := by
  obtain ⟨m, hm⟩ := h
  exact ⟨m, fun n hmn => by rw [hr m n hmn fun hdeep => ho (hm.symm.trans hdeep), hm]⟩

/-- A sequence ends as its first part does, or as its second part does behind the first one. -/
theorem comesTo_andThen_iff {k : α → Cursor → Nat → Run β} (hr : Settled r)
    (hk : ∀ v d, Settled (k v d)) {o : Outcome β} (ho : o ≠ .abort .tooDeep) :
    ComesTo (fun n => (r n).andThen fun v d => k v d n) o ↔
      (∃ f, o = .failure f ∧ ComesTo r (.failure f)) ∨ (∃ a, o = .abort a ∧ ComesTo r (.abort a)) ∨
        ∃ v d, ComesTo r (.success v d) ∧ ComesTo (k v d) o := by
  constructor
  · rintro ⟨n, hn⟩
    cases hres : (r n).result with
    | failure f =>
      simp only [Run.andThen, hres] at hn
      exact .inl ⟨f, hn.symm, n, hres⟩
    | abort a =>
      simp only [Run.andThen, hres] at hn
      exact .inr (.inl ⟨a, hn.symm, n, hres⟩)
    | success v d =>
      simp only [Run.andThen, hres] at hn
      exact .inr (.inr ⟨v, d, ⟨n, hres⟩, n, hn⟩)
  · rintro (⟨f, rfl, n, hn⟩ | ⟨a, rfl, n, hn⟩ | ⟨v, d, hv, h⟩)
    · exact ⟨n, by simp only [Run.andThen, hn]⟩
    · exact ⟨n, by simp only [Run.andThen, hn]⟩
    · obtain ⟨n, hn⟩ := hr.eventually hv (by simp)
      obtain ⟨m, hm⟩ := (hk v d).eventually h ho
      refine ⟨max n m, ?_⟩
      simp only [Run.andThen, hn (max n m) (Nat.le_max_left n m), Recorded.after]
      exact hm (max n m) (Nat.le_max_right n m)

section
variable {k : α → Cursor → Nat → Run β} (hr : Settled r) (hk : ∀ v d, Settled (k v d))
include hr hk

theorem comesTo_andThen_success_iff {w : β} {e : Cursor} :
    ComesTo (fun n => (r n).andThen fun v d => k v d n) (.success w e) ↔
      ∃ v d, ComesTo r (.success v d) ∧ ComesTo (k v d) (.success w e) :=
  (hr.comesTo_andThen_iff hk (o := .success w e) (by simp)).trans (by simp)

theorem comesTo_andThen_failure_iff {f : Failure} :
    ComesTo (fun n => (r n).andThen fun v d => k v d n) (.failure f) ↔
      ComesTo r (.failure f) ∨ ∃ v d, ComesTo r (.success v d) ∧ ComesTo (k v d) (.failure f) :=
  (hr.comesTo_andThen_iff hk (o := .failure f) (by simp)).trans (by simp)

theorem comesTo_andThen_abort_iff {a : Abort} (ha : a ≠ .tooDeep) :
    ComesTo (fun n => (r n).andThen fun v d => k v d n) (.abort a) ↔
      ComesTo r (.abort a) ∨ ∃ v d, ComesTo r (.success v d) ∧ ComesTo (k v d) (.abort a) :=
  (hr.comesTo_andThen_iff hk (o := .abort a) (by simpa using ha)).trans (by simp)

end

/-- An alternative is taken only where the first part fails. -/
theorem comesTo_orElse_iff {q : Nat → Run α} (hr : Settled r) (hq : Settled q)
    (ho : o ≠ .abort .tooDeep) : ComesTo (fun n => (r n).orElse fun _ => q n) o ↔
      ((∀ f, o ≠ .failure f) ∧ ComesTo r o) ∨ (∃ f, ComesTo r (.failure f)) ∧ ComesTo q o := by
  constructor
  · rintro ⟨n, hn⟩
    simp only [Run.orElse] at hn
    split at hn
    · next f hf => exact .inr ⟨⟨f, n, hf⟩, n, hn⟩
    · next hf => exact .inl ⟨fun f h => hf f (hn.trans h), n, hn⟩
  · rintro (⟨hf, n, hn⟩ | ⟨⟨f, hf⟩, h⟩)
    · refine ⟨n, ?_⟩
      simp only [Run.orElse]
      split
      · next f hres => exact absurd (hn.symm.trans hres) (hf f)
      · exact hn
    · obtain ⟨n, hn⟩ := hr.eventually hf (by simp)
      obtain ⟨m, hm⟩ := hq.eventually h ho
      refine ⟨max n m, ?_⟩
      simp only [Run.orElse, hn (max n m) (Nat.le_max_left n m), Recorded.after]
      exact hm (max n m) (Nat.le_max_right n m)

/-! ### Repetitions -/

section
variable {step : Nat → Cursor → Run β} {combine : α → β → Except Fault α} {acc acc' : α}
  {c d : Cursor}

/-- Finitely many rounds have a depth that is enough for all of them. -/
theorem eventually_rounds (hstep : ∀ c, Settled (step · c))
    (h : Rounds (StepsOf step) combine acc c acc' d) :
    ∃ m, ∀ n, m ≤ n → RoundsOf (step n) combine acc c acc' d := by
  induction h with
  | refl acc c => exact ⟨0, fun n _ => .refl acc c⟩
  | @head _ _ _ c _ _ _ hv hacc _ ih =>
    obtain ⟨m, hm⟩ := (hstep c).eventually hv (by simp)
    obtain ⟨l, hl⟩ := ih
    exact ⟨max m l, fun n hn => .head (hm n (by omega)) hacc (hl n (by omega))⟩

variable (hstep : ∀ c, Settled (step · c)) (hadv : Advances (StepsOf step))
include hstep hadv

theorem foldWhile_abort {a : Abort} (ha : a ≠ .tooDeep)
    (hrounds : Rounds (StepsOf step) combine acc c acc' d) (h : ComesTo (step · d) (.abort a)) :
    ComesTo (fun n => Run.foldWhile (step n) combine acc c) (.abort a) := by
  obtain ⟨m, hm⟩ := eventually_rounds hstep hrounds
  obtain ⟨l, hl⟩ := (hstep d).eventually h fun h => ha (Outcome.abort.inj h)
  exact ⟨max m l, (foldWhile_eq_abort_iff (hadv.at (max m l))).2 <|
    .inl ⟨acc', d, hm _ (Nat.le_max_left m l), .inl (hl _ (Nat.le_max_right m l))⟩⟩

theorem foldWhile_fault {v : β} {x : Cursor} {e : Fault}
    (hrounds : Rounds (StepsOf step) combine acc c acc' d) (hv : StepsOf step d v x)
    (he : combine acc' v = .error e) :
    ComesTo (fun n => Run.foldWhile (step n) combine acc c) (.abort (.fault e)) := by
  obtain ⟨m, hm⟩ := eventually_rounds hstep hrounds
  obtain ⟨l, hl⟩ := (hstep d).eventually hv (by simp)
  exact ⟨max m l, (foldWhile_eq_abort_iff (hadv.at (max m l))).2 <| .inl ⟨acc', d,
    hm _ (Nat.le_max_left m l), .inr ⟨v, x, e, hl _ (Nat.le_max_right m l), he, rfl⟩⟩⟩

/-- A repetition ends in front of the step that fails. -/
theorem foldWhile_success_iff {v : α} :
    ComesTo (fun n => Run.foldWhile (step n) combine acc c) (.success v d) ↔
      ∃ vs, Successive (StepsOf step) c vs d ∧ vs.foldlM combine acc = .ok v ∧
        ∃ f, ComesTo (step · d) (.failure f) := by
  constructor
  · rintro ⟨n, hn⟩
    obtain ⟨hrounds, f, hf⟩ := (foldWhile_eq_success_iff (hadv.at n)).1 hn
    have hrounds : Rounds (StepsOf step) combine acc c v d :=
      hrounds.mono fun c v d hv => ⟨n, hv⟩
    obtain ⟨vs, hvs, hfold⟩ := rounds_iff.1 hrounds
    exact ⟨vs, hvs, hfold, f, n, hf⟩
  · rintro ⟨vs, hvs, hfold, f, hf⟩
    obtain ⟨m, hm⟩ := eventually_rounds hstep (rounds_iff.2 ⟨vs, hvs, hfold⟩)
    obtain ⟨l, hl⟩ := (hstep d).eventually hf (by simp)
    exact ⟨max m l, (foldWhile_eq_success_iff (hadv.at (max m l))).2
      ⟨hm _ (Nat.le_max_left m l), f, hl _ (Nat.le_max_right m l)⟩⟩

/-- A repetition aborts where a step does, or where its value cannot be combined with those in
front of it. -/
theorem foldWhile_abort_iff (hlt : ∀ c v d, StepsOf step c v d → d.unreadCount < c.unreadCount)
    {a : Abort} (ha : a ≠ .tooDeep) :
    ComesTo (fun n => Run.foldWhile (step n) combine acc c) (.abort a) ↔
      ∃ vs acc' x, Successive (StepsOf step) c vs x ∧ vs.foldlM combine acc = .ok acc' ∧
        (ComesTo (step · x) (.abort a) ∨
          ∃ v d e, StepsOf step x v d ∧ combine acc' v = .error e ∧ a = .fault e) := by
  constructor
  · rintro ⟨n, hn⟩
    obtain ⟨acc', x, hrounds, h⟩ | ⟨-, hendless⟩ := (foldWhile_eq_abort_iff (hadv.at n)).1 hn
    · have hrounds : Rounds (StepsOf step) combine acc c acc' x :=
        hrounds.mono fun c v d hv => ⟨n, hv⟩
      obtain ⟨vs, hvs, hfold⟩ := rounds_iff.1 hrounds
      refine ⟨vs, acc', x, hvs, hfold, ?_⟩
      rcases h with h | ⟨v, d, e, hv, he, rfl⟩
      · exact .inl ⟨n, h⟩
      · exact .inr ⟨v, d, e, ⟨n, hv⟩, he, rfl⟩
    · obtain ⟨acc', x, hs, hlast⟩ :=
        exists_not_goesOn (fun c v d hv => hlt c v d ⟨n, hv⟩) combine acc c
      exact absurd (hendless acc' x hs) hlast
  · rintro ⟨vs, acc', x, hvs, hfold, h⟩
    have hrounds := rounds_iff.2 ⟨vs, hvs, hfold⟩
    rcases h with h | ⟨v, d, e, hv, he, rfl⟩
    · exact foldWhile_abort hstep hadv ha hrounds h
    · exact foldWhile_fault hstep hadv hrounds hv he

end
end Settled
end Run

/-! ### Parsers -/

theorem Cursor.Leads.unreadCount_lt_of_offset {c d : Cursor} {s : Text} (h : c.Leads s d)
    (hlt : c.offset < d.offset) : d.unreadCount < c.unreadCount := by
  refine h.unreadCount_lt ?_
  rintro rfl
  rw [h.offset] at hlt
  exact Nat.lt_irrefl _ hlt

namespace Parser

variable {ρ : Type → Type} {rules : Rules ρ} {verbose : Bool} {α : Type} {p : Parser ρ α}
  {op : Parser ρ (α → α → Except Fault α)} {c d : Cursor}

/-- `p` ends in `a` at `c`, and that is not for want of depth. -/
def Aborts (rules : Rules ρ) (verbose : Bool) (p : Parser ρ α) (c : Cursor) (a : Abort) : Prop :=
  a ≠ .tooDeep ∧ ∃ n, (p.run rules verbose n c).result = .abort a

theorem settled_run (p : Parser ρ α) (c : Cursor) : Run.Settled (p.run rules verbose · c) :=
  fun _ _ hnm => run_of_le hnm

theorem Fails.eventually (h : p.Fails rules verbose c) :
    ∃ m f, ∀ n, m ≤ n → (p.run rules verbose n c).result = .failure f := by
  obtain ⟨n, f, hn⟩ := h
  obtain ⟨m, hm⟩ := (settled_run p c).eventually ⟨n, hn⟩ (by simp)
  exact ⟨m, f, hm⟩

/-- The first unit of depth is spent on the parser itself. -/
theorem comesTo_succ_iff {o : Outcome α} (ho : o ≠ .abort .tooDeep) :
    Run.ComesTo (p.run rules verbose · c) o ↔
      Run.ComesTo (fun n => p.run rules verbose (n + 1) c) o := by
  constructor
  · rintro ⟨_ | n, hn⟩
    · exact absurd hn.symm ho
    · exact ⟨n, hn⟩
  · rintro ⟨n, hn⟩
    exact ⟨n + 1, hn⟩

theorem Succeeds.unreadCount_lt {v : α} (h : p.Succeeds rules verbose c v d)
    (hlt : c.offset < d.offset) : d.unreadCount < c.unreadCount := by
  obtain ⟨s, hs⟩ := h.leads
  exact hs.unreadCount_lt_of_offset hlt

theorem RoundSucceeds.unreadCount_lt {v : (α → α → Except Fault α) × α}
    (h : RoundSucceeds rules verbose p op c v d) (hlt : c.offset < d.offset) :
    d.unreadCount < c.unreadCount := by
  obtain ⟨s, hs⟩ := h.leads
  exact hs.unreadCount_lt_of_offset hlt

/-! ### Sequences and alternatives -/

section
variable {β : Type} {q : Parser ρ α} {k : α → Parser ρ β} {g : α → β} {v : α} {w : β} {a : Abort}

theorem pure_succeeds_iff {u : α} : (Parser.pure u : Parser ρ α).Succeeds rules verbose c v d ↔
    v = u ∧ d = c := by
  constructor
  · rintro ⟨_ | n, hn⟩
    · cases hn
    · cases hn
      exact ⟨rfl, rfl⟩
  · rintro ⟨rfl, rfl⟩
    exact ⟨1, rfl⟩

theorem pure_not_fails (u : α) : ¬ (Parser.pure u : Parser ρ α).Fails rules verbose c := by
  rintro ⟨_ | n, f, hn⟩ <;> cases hn

theorem pure_not_aborts (u : α) : ¬ (Parser.pure u : Parser ρ α).Aborts rules verbose c a := by
  rintro ⟨ha, _ | n, hn⟩
  · cases hn
    exact ha rfl
  · cases hn

theorem fails_iff_comesTo : p.Fails rules verbose c ↔
    ∃ f, Run.ComesTo (p.run rules verbose · c) (.failure f) := exists_comm

theorem bind_succeeds_iff : (p.bind k).Succeeds rules verbose c w d ↔
    ∃ v e, p.Succeeds rules verbose c v e ∧ (k v).Succeeds rules verbose e w d :=
  (comesTo_succ_iff (o := .success w d) (by simp)).trans
    ((settled_run p c).comesTo_andThen_success_iff fun v e => settled_run (k v) e)

theorem bind_fails_iff : (p.bind k).Fails rules verbose c ↔
    p.Fails rules verbose c ∨
      ∃ v d, p.Succeeds rules verbose c v d ∧ (k v).Fails rules verbose d := by
  have hone (f : Failure) : Run.ComesTo ((p.bind k).run rules verbose · c) (.failure f) ↔ _ :=
    (comesTo_succ_iff (o := .failure f) (by simp)).trans
      ((settled_run p c).comesTo_andThen_failure_iff fun v d => settled_run (k v) d)
  simp only [fails_iff_comesTo, hone, exists_or]
  refine or_congr_right ⟨?_, ?_⟩
  · rintro ⟨f, v, d, hv, h⟩
    exact ⟨v, d, hv, f, h⟩
  · rintro ⟨v, d, hv, f, h⟩
    exact ⟨f, v, d, hv, h⟩

theorem bind_aborts_iff : (p.bind k).Aborts rules verbose c a ↔
    p.Aborts rules verbose c a ∨
      ∃ v d, p.Succeeds rules verbose c v d ∧ (k v).Aborts rules verbose d a := by
  have hone (ha : a ≠ .tooDeep) : Run.ComesTo ((p.bind k).run rules verbose · c) (.abort a) ↔ _ :=
    (comesTo_succ_iff (o := .abort a) (by simpa using ha)).trans
      ((settled_run p c).comesTo_andThen_abort_iff (fun v d => settled_run (k v) d) ha)
  constructor
  · rintro ⟨ha, h⟩
    refine ((hone ha).1 h).imp (fun h => ⟨ha, h⟩) ?_
    rintro ⟨v, d, hv, h⟩
    exact ⟨v, d, hv, ha, h⟩
  · rintro (⟨ha, h⟩ | ⟨v, d, hv, ha, h⟩)
    · exact ⟨ha, (hone ha).2 (.inl h)⟩
    · exact ⟨ha, (hone ha).2 (.inr ⟨v, d, hv, h⟩)⟩

/-- If nothing behind it can fail, then a sequence fails as its first part does, with the events of
that. -/
theorem bind_reaches_failure_iff (hk : ∀ v d, ¬ (k v).Fails rules verbose d) {f : Failure}
    {es : List Event} : (p.bind k).Reaches rules verbose c ⟨.failure f, es⟩ ↔
      p.Reaches rules verbose c ⟨.failure f, es⟩ := by
  constructor
  · rintro ⟨-, _ | n, hn⟩
    · cases hn
    · refine ⟨by simp [Run.TooDeep], n, ?_⟩
      simp only [run, Run.andThen] at hn
      split at hn
      · next v d _ => exact absurd ⟨n, f, congrArg Recorded.result hn⟩ (hk v d)
      · next e he =>
        cases hn
        rw [← he]
      · cases hn
  · rintro ⟨-, n, hn⟩
    exact ⟨by simp [Run.TooDeep], n + 1, by simp only [run, hn, Run.andThen]⟩

theorem map_succeeds_iff : (p.map g).Succeeds rules verbose c w d ↔
    ∃ v, p.Succeeds rules verbose c v d ∧ g v = w :=
  (comesTo_succ_iff (o := .success w d) (by simp)).trans (Run.comesTo_map_success_iff g)

theorem map_fails_iff : (p.map g).Fails rules verbose c ↔ p.Fails rules verbose c := by
  have hone (f : Failure) : Run.ComesTo ((p.map g).run rules verbose · c) (.failure f) ↔ _ :=
    (comesTo_succ_iff (o := .failure f) (by simp)).trans (Run.comesTo_map_failure_iff g)
  simp only [fails_iff_comesTo, hone]

theorem map_aborts_iff : (p.map g).Aborts rules verbose c a ↔ p.Aborts rules verbose c a :=
  and_congr_right fun ha => (comesTo_succ_iff (o := .abort a) (by simpa using ha)).trans
    (Run.comesTo_map_abort_iff g)

theorem orElse_succeeds_iff : (p.orElse q).Succeeds rules verbose c v d ↔
    p.Succeeds rules verbose c v d ∨ p.Fails rules verbose c ∧ q.Succeeds rules verbose c v d := by
  refine (comesTo_succ_iff (o := .success v d) (by simp)).trans ?_
  refine ((settled_run p c).comesTo_orElse_iff (settled_run q c) (o := .success v d)
    (by simp)).trans ?_
  rw [fails_iff_comesTo]
  exact or_congr_left (and_iff_right (by simp))

theorem orElse_fails_iff : (p.orElse q).Fails rules verbose c ↔
    p.Fails rules verbose c ∧ q.Fails rules verbose c := by
  have hone (f : Failure) : Run.ComesTo ((p.orElse q).run rules verbose · c) (.failure f) ↔ _ :=
    (comesTo_succ_iff (o := .failure f) (by simp)).trans
      ((settled_run p c).comesTo_orElse_iff (settled_run q c) (o := .failure f) (by simp))
  simp only [fails_iff_comesTo, hone]
  simp

theorem orElse_aborts_iff : (p.orElse q).Aborts rules verbose c a ↔
    p.Aborts rules verbose c a ∨ p.Fails rules verbose c ∧ q.Aborts rules verbose c a := by
  have hone (ha : a ≠ .tooDeep) : Run.ComesTo ((p.orElse q).run rules verbose · c) (.abort a) ↔ _ :=
    (comesTo_succ_iff (o := .abort a) (by simpa using ha)).trans
      ((settled_run p c).comesTo_orElse_iff (settled_run q c) (o := .abort a) (by simpa using ha))
  rw [fails_iff_comesTo]
  constructor
  · rintro ⟨ha, h⟩
    exact ((hone ha).1 h).imp (fun h => ⟨ha, h.2⟩) fun h => ⟨h.1, ha, h.2⟩
  · rintro (⟨ha, h⟩ | ⟨hf, ha, h⟩)
    · exact ⟨ha, (hone ha).2 (.inl ⟨by simp, h⟩)⟩
    · exact ⟨ha, (hone ha).2 (.inr ⟨hf, h⟩)⟩

end

/-! ### Rounds of a chain -/

theorem settled_chainRound (p : Parser ρ α) (op : Parser ρ (α → α → Except Fault α)) (c : Cursor) :
    Run.Settled (chainRound rules verbose p op · c) :=
  (settled_run op c).andThen fun _ d => (settled_run p d).tryMap _

/-- The operator fails, or the operand behind it does. -/
def RoundFails (rules : Rules ρ) (verbose : Bool) (operand : Parser ρ α)
    (operator : Parser ρ (α → α → Except Fault α)) (c : Cursor) : Prop :=
  operator.Fails rules verbose c ∨
    ∃ f d, operator.Succeeds rules verbose c f d ∧ operand.Fails rules verbose d

/-- The operator aborts, or the operand behind it does. -/
def RoundAborts (rules : Rules ρ) (verbose : Bool) (operand : Parser ρ α)
    (operator : Parser ρ (α → α → Except Fault α)) (c : Cursor) (a : Abort) : Prop :=
  operator.Aborts rules verbose c a ∨
    ∃ f d, operator.Succeeds rules verbose c f d ∧ operand.Aborts rules verbose d a

/-- The operator and the operand behind it succeed, and the operator raises `e` when it is applied
to `v` and the operand. -/
def RoundRaises (rules : Rules ρ) (verbose : Bool) (operand : Parser ρ α)
    (operator : Parser ρ (α → α → Except Fault α)) (v : α) (c : Cursor) (e : Fault) : Prop :=
  ∃ f w d, RoundSucceeds rules verbose operand operator c (f, w) d ∧ f v w = .error e

theorem chainRound_success_iff {x : (α → α → Except Fault α) × α} :
    Run.ComesTo (chainRound rules verbose p op · c) (.success x d) ↔
      RoundSucceeds rules verbose p op c x d := by
  refine ((settled_run op c).comesTo_andThen_success_iff
    fun _ d => (settled_run p d).tryMap _).trans ?_
  simp only [Run.comesTo_map_success_iff]
  constructor
  · rintro ⟨f, e, hf, w, hw, rfl⟩
    exact ⟨e, hf, hw⟩
  · rintro ⟨e, hf, hw⟩
    exact ⟨x.1, e, hf, x.2, hw, rfl⟩

theorem chainRound_failure_iff : (∃ e, Run.ComesTo (chainRound rules verbose p op · c)
    (.failure e)) ↔ RoundFails rules verbose p op c := by
  refine (exists_congr fun e => (settled_run op c).comesTo_andThen_failure_iff
    fun _ d => (settled_run p d).tryMap _).trans ?_
  simp only [Run.comesTo_map_failure_iff, exists_or]
  refine or_congr exists_comm ⟨?_, ?_⟩
  · rintro ⟨e, f, d, hf, n, hn⟩
    exact ⟨f, d, hf, n, e, hn⟩
  · rintro ⟨f, d, hf, n, e, hn⟩
    exact ⟨e, f, d, hf, n, hn⟩

theorem chainRound_abort_iff {a : Abort} (ha : a ≠ .tooDeep) :
    Run.ComesTo (chainRound rules verbose p op · c) (.abort a) ↔
      RoundAborts rules verbose p op c a := by
  refine ((settled_run op c).comesTo_andThen_abort_iff
    (fun _ d => (settled_run p d).tryMap _) ha).trans ?_
  simp only [Run.comesTo_map_abort_iff, RoundAborts, Aborts, ha, ne_eq, not_false_eq_true, true_and]
  rfl

theorem stepsOf_chainRound :
    Run.StepsOf (chainRound rules verbose p op) = RoundSucceeds rules verbose p op := by
  funext c x e
  exact propext chainRound_success_iff

theorem advances_chainRound (p : Parser ρ α) (op : Parser ρ (α → α → Except Fault α)) :
    Run.Advances (Run.StepsOf (chainRound rules verbose p op)) :=
  stepsOf_chainRound ▸ advances_roundSucceeds p op

theorem settled_chain (p : Parser ρ α) (op : Parser ρ (α → α → Except Fault α)) (v : α)
    (c : Cursor) : Run.Settled fun n =>
      Run.foldWhile (chainRound rules verbose p op n) (fun v (f, w) => f v w) v c :=
  Run.Settled.foldWhile (settled_chainRound p op) _ v c

end Parser
end Descent
