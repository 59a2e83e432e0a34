import Descent.Proofs.Choices

/-!
# Outcomes

`p.EndsIn rules verbose c o`: with depth enough, `p` ends in `o` at `c`, whatever it records on the
way. Sequences, alternatives and choices end as their parts do.
-/

namespace Descent
namespace Parser

variable {ρ : Type → Type} {rules : Rules ρ} {verbose : Bool} {α β : Type} {p q : Parser ρ α}
  {c : Cursor} {o : Outcome α}

def EndsIn (rules : Rules ρ) (verbose : Bool) (p : Parser ρ α) (c : Cursor) (o : Outcome α) :
    Prop :=
  ∃ es, p.Reaches rules verbose c ⟨o, es⟩

theorem endsIn_iff_comesTo :
    p.EndsIn rules verbose c o ↔ o ≠ .abort .tooDeep ∧ Run.ComesTo (p.run rules verbose · c) o := by
  constructor
  · rintro ⟨es, hdeep, n, hn⟩
    exact ⟨hdeep, n, congrArg Recorded.result hn⟩
  · rintro ⟨hdeep, n, rfl⟩
    exact ⟨_, hdeep, n, rfl⟩

theorem succeeds_iff_endsIn {v : α} {d : Cursor} :
    p.Succeeds rules verbose c v d ↔ p.EndsIn rules verbose c (.success v d) := by
  rw [endsIn_iff_comesTo]
  exact (and_iff_right (by simp)).symm

theorem fails_iff_endsIn :
    p.Fails rules verbose c ↔ ∃ f, p.EndsIn rules verbose c (.failure f) := by
  simp only [endsIn_iff_comesTo, fails_iff_comesTo]
  simp

theorem aborts_iff_endsIn {a : Abort} :
    p.Aborts rules verbose c a ↔ p.EndsIn rules verbose c (.abort a) := by
  rw [endsIn_iff_comesTo]
  exact and_congr_left' (by simp)

theorem Answers.endsIn {a : Answer α} {t : Text} (h : p.Answers rules verbose t a)
    (hc : c.unread = t) : p.EndsIn rules verbose c (a.outcome c) := by
  obtain ⟨⟨o, es⟩, hr, rfl⟩ := h.reaches hc
  exact ⟨es, hr⟩

theorem EndsIn.unique {o' : Outcome α} (h : p.EndsIn rules verbose c o)
    (h' : p.EndsIn rules verbose c o') : o = o' := by
  obtain ⟨es, hr⟩ := h
  obtain ⟨es', hr'⟩ := h'
  exact (Recorded.mk.inj (hr.unique hr')).1

/-- A parser whose outcomes are made of those of its only part. -/
theorem reaches_map_iff {q : Parser ρ β} {F : Outcome α → Outcome β} {r : Run β}
    (hF : ∀ o, F o = .abort .tooDeep ↔ o = .abort .tooDeep)
    (hrun : ∀ n, q.run rules verbose (n + 1) c = (p.run rules verbose n c).map F) :
    q.Reaches rules verbose c r ↔ ∃ r', p.Reaches rules verbose c r' ∧ r'.map F = r := by
  constructor
  · rintro ⟨hdeep, _ | n, rfl⟩
    · exact absurd rfl hdeep
    · rw [hrun] at hdeep ⊢
      exact ⟨_, ⟨fun h => hdeep ((Run.tooDeep_map_iff hF).2 h), n, rfl⟩, rfl⟩
  · rintro ⟨r', ⟨hdeep, n, rfl⟩, rfl⟩
    exact ⟨fun h => hdeep ((Run.tooDeep_map_iff hF).1 h), n + 1, hrun n⟩

theorem bind_endsIn_iff {k : α → Parser ρ β} {o : Outcome β} :
    (p.bind k).EndsIn rules verbose c o ↔
      (∃ f, o = .failure f ∧ p.EndsIn rules verbose c (.failure f)) ∨
        (∃ a, o = .abort a ∧ p.EndsIn rules verbose c (.abort a)) ∨
          ∃ v d, p.EndsIn rules verbose c (.success v d) ∧ (k v).EndsIn rules verbose d o := by
  by_cases ho : o = .abort .tooDeep
  · subst ho
    simp [endsIn_iff_comesTo]
  · have hone : Run.ComesTo ((p.bind k).run rules verbose · c) o ↔ _ :=
      (comesTo_succ_iff ho).trans
        ((settled_run p c).comesTo_andThen_iff (fun v d => settled_run (k v) d) ho)
    simp only [endsIn_iff_comesTo, hone, ho, ne_eq, not_false_eq_true, true_and]
    refine or_congr (by simp) (or_congr (exists_congr fun a => and_congr_right ?_) (by simp))
    rintro rfl
    refine (and_iff_right fun h => ho ?_).symm
    rw [Outcome.abort.inj h]

theorem orElse_endsIn_iff : (p.orElse q).EndsIn rules verbose c o ↔
    ((∀ f, o ≠ .failure f) ∧ p.EndsIn rules verbose c o) ∨
      (∃ f, p.EndsIn rules verbose c (.failure f)) ∧ q.EndsIn rules verbose c o := by
  by_cases ho : o = .abort .tooDeep
  · subst ho
    simp [endsIn_iff_comesTo]
  · have hone : Run.ComesTo ((p.orElse q).run rules verbose · c) o ↔ _ :=
      (comesTo_succ_iff ho).trans ((settled_run p c).comesTo_orElse_iff (settled_run q c) ho)
    simp only [endsIn_iff_comesTo, ho, hone, ne_eq, not_false_eq_true, true_and]
    simp

section
variable {k : α → Parser ρ β} {o : Outcome β}

/-- Behind a success a sequence ends as what follows does. -/
theorem EndsIn.bind_iff {v : α} {d : Cursor} (h : p.EndsIn rules verbose c (.success v d)) :
    (p.bind k).EndsIn rules verbose c o ↔ (k v).EndsIn rules verbose d o := by
  rw [bind_endsIn_iff]
  constructor
  · rintro (⟨f, -, hf⟩ | ⟨a, -, ha⟩ | ⟨w, e, hw, ho⟩)
    · exact absurd (h.unique hf) (by simp)
    · exact absurd (h.unique ha) (by simp)
    · cases h.unique hw
      exact ho
  · exact fun ho => .inr (.inr ⟨v, d, h, ho⟩)

theorem EndsIn.bind_failure_iff {f : Failure} (h : p.EndsIn rules verbose c (.failure f)) :
    (p.bind k).EndsIn rules verbose c o ↔ o = .failure f := by
  rw [bind_endsIn_iff]
  constructor
  · rintro (⟨g, rfl, hg⟩ | ⟨a, -, ha⟩ | ⟨v, d, hv, -⟩)
    · cases h.unique hg
      rfl
    · exact absurd (h.unique ha) (by simp)
    · exact absurd (h.unique hv) (by simp)
  · exact fun ho => .inl ⟨f, ho, h⟩

theorem EndsIn.bind_abort_iff {a : Abort} (h : p.EndsIn rules verbose c (.abort a)) :
    (p.bind k).EndsIn rules verbose c o ↔ o = .abort a := by
  rw [bind_endsIn_iff]
  constructor
  · rintro (⟨f, -, hf⟩ | ⟨b, rfl, hb⟩ | ⟨v, d, hv, -⟩)
    · exact absurd (h.unique hf) (by simp)
    · cases h.unique hb
      rfl
    · exact absurd (h.unique hv) (by simp)
  · exact fun ho => .inr (.inl ⟨a, ho, h⟩)

theorem not_bind_endsIn (h : ∀ o, ¬ p.EndsIn rules verbose c o) :
    ¬ (p.bind k).EndsIn rules verbose c o := by
  rw [bind_endsIn_iff]
  rintro (⟨f, -, hf⟩ | ⟨a, -, ha⟩ | ⟨v, d, hv, -⟩)
  · exact h _ hf
  · exact h _ ha
  · exact h _ hv

end

section
variable {h : α → Except Fault β} {v : α} {w : β} {d : Cursor}

theorem tryMap_endsIn_iff {o : Outcome β} : (p.tryMap h).EndsIn rules verbose c o ↔
    ∃ o', p.EndsIn rules verbose c o' ∧ o'.tryMap h = o := by
  have hone {r : Run β} : (p.tryMap h).Reaches rules verbose c r ↔
      ∃ r', p.Reaches rules verbose c r' ∧ Recorded.map (·.tryMap h) r' = r :=
    reaches_map_iff (fun _ => Outcome.tryMap_eq_tooDeep_iff h) fun _ => rfl
  constructor
  · rintro ⟨es, hr⟩
    obtain ⟨⟨o', es'⟩, ho', heq⟩ := hone.1 hr
    exact ⟨o', ⟨es', ho'⟩, congrArg Recorded.result heq⟩
  · rintro ⟨o', ⟨es, ho'⟩, rfl⟩
    exact ⟨es, hone.2 ⟨_, ho', rfl⟩⟩

theorem tryMap_succeeds_iff : (p.tryMap h).Succeeds rules verbose c w d ↔
    ∃ v, p.Succeeds rules verbose c v d ∧ h v = .ok w := by
  refine ⟨Succeeds.of_tryMap, ?_⟩
  rintro ⟨v, hv, hw⟩
  rw [succeeds_iff_endsIn] at hv ⊢
  exact tryMap_endsIn_iff.2 ⟨_, hv, by simp only [Outcome.tryMap, hw]⟩

theorem tryMap_endsIn_failure_iff {f : Failure} :
    (p.tryMap h).EndsIn rules verbose c (.failure f) ↔ p.EndsIn rules verbose c (.failure f) := by
  rw [tryMap_endsIn_iff]
  constructor
  · rintro ⟨o, ho, hf⟩
    cases o with
    | success v d => simp only [Outcome.tryMap] at hf; split at hf <;> cases hf
    | failure f' => cases hf; exact ho
    | abort a => cases hf
  · exact fun hf => ⟨_, hf, rfl⟩

theorem tryMap_fails_iff : (p.tryMap h).Fails rules verbose c ↔ p.Fails rules verbose c := by
  simp only [fails_iff_endsIn, tryMap_endsIn_failure_iff]

theorem tryMap_aborts_of_error {f : Fault} (hv : p.Succeeds rules verbose c v d)
    (hf : h v = .error f) : (p.tryMap h).Aborts rules verbose c (.fault f) :=
  aborts_iff_endsIn.2 (tryMap_endsIn_iff.2
    ⟨_, succeeds_iff_endsIn.1 hv, by simp only [Outcome.tryMap, hf]⟩)

end

theorem AgreeAt.endsIn_iff (h : AgreeAt rules verbose c p q) :
    p.EndsIn rules verbose c o ↔ q.EndsIn rules verbose c o :=
  exists_congr fun es => h ⟨o, es⟩

theorem AgreeAt.fails_iff (h : AgreeAt rules verbose c p q) :
    p.Fails rules verbose c ↔ q.Fails rules verbose c := by
  simp only [fails_iff_endsIn, h.endsIn_iff]

/-! ### Choices from lists -/

section
variable {ps : List (Parser ρ α)}

theorem empty_endsIn_iff : (empty : Parser ρ α).EndsIn rules verbose c o ↔
    o = .failure ⟨c.position, "Empty parser"⟩ := by
  constructor
  · rintro ⟨es, hdeep, _ | n, hn⟩
    · exact absurd (congrArg Recorded.result hn).symm hdeep
    · exact (congrArg Recorded.result hn).symm
  · rintro rfl
    exact ⟨[], by simp [Run.TooDeep], 1, rfl⟩

theorem firstOf_fails_iff :
    (firstOf ps).Fails rules verbose c ↔ ∀ p ∈ ps, p.Fails rules verbose c := by
  induction ps with
  | nil =>
    rw [(Agree.firstOf_nil c).fails_iff, fails_iff_endsIn]
    exact iff_of_true ⟨_, empty_endsIn_iff.2 rfl⟩ (by simp)
  | cons p ps ih =>
    rw [List.forall_mem_cons, ← ih]
    by_cases hps : ps = []
    · subst hps
      rw [(Agree.firstOf_singleton p c).fails_iff, ih]
      simp
    · rw [(Agree.firstOf_cons p hps c).fails_iff, orElse_fails_iff]

/-- Where no two parsers come to anything but a failure, their order does not matter. -/
theorem firstOf_endsIn_iff
    (h : ps.Pairwise fun p q => p.Fails rules verbose c ∨ q.Fails rules verbose c)
    (ho : ∀ f, o ≠ .failure f) :
    (firstOf ps).EndsIn rules verbose c o ↔ ∃ p ∈ ps, p.EndsIn rules verbose c o := by
  induction ps with
  | nil =>
    rw [(Agree.firstOf_nil c).endsIn_iff, empty_endsIn_iff]
    exact iff_of_false (ho _) (by simp)
  | cons p ps ih =>
    obtain ⟨hp, hps⟩ := List.pairwise_cons.1 h
    by_cases hnil : ps = []
    · subst hnil
      rw [(Agree.firstOf_singleton p c).endsIn_iff]
      simp
    · rw [(Agree.firstOf_cons p hnil c).endsIn_iff, orElse_endsIn_iff, ih hps, and_iff_right ho,
        List.exists_mem_cons_iff]
      refine or_congr_right (and_iff_right_of_imp ?_)
      rintro ⟨q, hq, hend⟩
      rcases hp q hq with hfail | hfail
      · exact fails_iff_endsIn.1 hfail
      · obtain ⟨f, hf⟩ := fails_iff_endsIn.1 hfail
        exact absurd (hend.unique hf) (ho f)

end

/-! ### Parsers that end alike -/

/-- `p` and `q` end in the same outcomes, wherever they start. -/
def SameOutcomes (rules : Rules ρ) (verbose : Bool) (p q : Parser ρ α) : Prop :=
  ∀ c o, p.EndsIn rules verbose c o ↔ q.EndsIn rules verbose c o

namespace SameOutcomes

variable {p' q' s : Parser ρ α} {k k' : α → Parser ρ β}

theorem of_agree (h : Agree rules verbose p q) : SameOutcomes rules verbose p q :=
  fun c _ => (h c).endsIn_iff

theorem trans (h : SameOutcomes rules verbose p q) (h' : SameOutcomes rules verbose q s) :
    SameOutcomes rules verbose p s :=
  fun c o => (h c o).trans (h' c o)

theorem bind (p : Parser ρ α) (hk : ∀ v, SameOutcomes rules verbose (k v) (k' v)) :
    SameOutcomes rules verbose (p.bind k) (p.bind k') := by
  intro c o
  simp only [bind_endsIn_iff, fun v d => hk v d o]

theorem orElse (hp : SameOutcomes rules verbose p p') (hq : SameOutcomes rules verbose q q') :
    SameOutcomes rules verbose (p.orElse q) (p'.orElse q') := by
  intro c o
  simp only [orElse_endsIn_iff, hp c, hq c]

end SameOutcomes

end Parser
end Descent
