import Descent.Proofs.Outcomes

/-!
# Left factoring

Alternatives that start with the same parser can be put together behind it: the outcome is the same,
and the parser runs only once (`Parser.left_factoring`). What makes this so is that a branch that
fails leaves nothing behind. The alternative starts over where the branch did, and there the common
parser ends as it did before.
-/

namespace Descent

namespace Run

variable {α β : Type}

theorem map_orElse (g : α → β) (r : Run α) (q : Unit → Run α) :
    Recorded.map (·.tryMap fun v => .ok (g v)) (r.orElse q) =
      Run.orElse (Recorded.map (·.tryMap fun v => .ok (g v)) r) fun _ =>
        Recorded.map (·.tryMap fun v => .ok (g v)) (q ()) := by
  rcases r with ⟨o, es⟩
  cases o <;> rfl

end Run

namespace Parser

variable {ρ : Type → Type} {rules : Rules ρ} {verbose : Bool} {α β γ : Type}

/-! ### Conversions of choices -/

namespace Agree

theorem map {p q : Parser ρ α} (g : α → β) (h : Agree rules verbose p q) :
    Agree rules verbose (p.map g) (q.map g) :=
  fun c => (h c).tryMap _

theorem map_orElse (g : α → β) (p q : Parser ρ α) :
    Agree rules verbose ((p.orElse q).map g) ((p.map g).orElse (q.map g)) := by
  intro c
  rw [agreeAt_iff_matches]
  have hleft : Run.Matches (((p.orElse q).map g).run rules verbose · c) _ :=
    (matches_tryMap _ (p.orElse q) c).trans ((matches_orElse p q c).tryMap _)
  have hright : Run.Matches (((p.map g).orElse (q.map g)).run rules verbose · c) _ :=
    (matches_orElse (p.map g) (q.map g) c).trans
      ((matches_tryMap _ p c).orElse fun _ => matches_tryMap _ q c)
  simp only [Run.map_orElse] at hleft
  exact hleft.trans hright.symm

theorem map_foldl_orElse (g : α → β) (p : Parser ρ α) (ps : List (Parser ρ α)) :
    Agree rules verbose ((ps.foldl Parser.orElse p).map g)
      ((ps.map (Parser.map g)).foldl Parser.orElse (p.map g)) := by
  induction ps using List.reverseRecOn with
  | nil => exact .refl _
  | append_singleton ps q ih =>
    simp only [List.map_append, List.map_cons, List.map_nil, List.foldl_concat]
    exact (map_orElse g _ q).trans (ih.orElse (.refl _))

end Agree

/-! ### Sequences -/

namespace SameOutcomes

/-- Two branches that start with the same parser. -/
theorem bind_orElse (p : Parser ρ α) (f g : α → Parser ρ β) :
    SameOutcomes rules verbose ((p.bind f).orElse (p.bind g))
      (p.bind fun v => (f v).orElse (g v)) := by
  intro c o
  rw [orElse_endsIn_iff]
  by_cases hend : ∃ o', p.EndsIn rules verbose c o'
  · obtain ⟨o', hp⟩ := hend
    cases o' with
    | success v d => simp only [hp.bind_iff, orElse_endsIn_iff]
    | failure e =>
      simp only [hp.bind_failure_iff]
      exact ⟨fun h => h.elim And.right And.right, fun h => .inr ⟨⟨e, rfl⟩, h⟩⟩
    | abort a =>
      simp only [hp.bind_abort_iff]
      constructor
      · exact fun h => h.elim And.right And.right
      · rintro rfl
        exact .inl ⟨by simp, rfl⟩
  · have hnone := not_exists.1 hend
    simp [not_bind_endsIn hnone]

/-- Any number of branches, of which `k i` is the one for `i`. -/
theorem bind_foldl_orElse {ι : Type*} (p : Parser ρ α) (k : ι → α → Parser ρ β) (i : ι)
    (is : List ι) : SameOutcomes rules verbose
      ((is.map fun i => p.bind (k i)).foldl Parser.orElse (p.bind (k i)))
      (p.bind fun v => (is.map fun i => k i v).foldl Parser.orElse (k i v)) := by
  induction is using List.reverseRecOn with
  | nil => exact .of_agree (.refl _)
  | append_singleton is j ih =>
    simp only [List.map_append, List.map_cons, List.map_nil, List.foldl_concat]
    exact (ih.orElse (.of_agree (.refl _))).trans (bind_orElse p _ (k j))

theorem bind_firstOf (p : Parser ρ α) (f : α → Parser ρ β) (fs : List (α → Parser ρ β)) :
    SameOutcomes rules verbose (firstOf ((f :: fs).map p.bind))
      (p.bind fun v => firstOf ((f :: fs).map fun g => g v)) := by
  refine (of_agree (Agree.foldl_orElse (p.bind f) _).symm).trans ?_
  exact (bind_foldl_orElse p (fun g => g) f fs).trans
    (.bind p fun v => .of_agree (Agree.foldl_orElse (f v) _))

theorem keepRight_foldl_orElse (p : Parser ρ α) (q : Parser ρ β) (qs : List (Parser ρ β)) :
    SameOutcomes rules verbose ((qs.map p.keepRight).foldl Parser.orElse (p.keepRight q))
      (p.keepRight (qs.foldl Parser.orElse q)) := by
  have h : SameOutcomes rules verbose _ _ := bind_foldl_orElse p (fun q _ => q) q qs
  simp only [List.map_id'] at h
  exact h

theorem both_foldl_orElse (p : Parser ρ α) (q : Parser ρ β) (qs : List (Parser ρ β)) :
    SameOutcomes rules verbose ((qs.map p.both).foldl Parser.orElse (p.both q))
      (p.both (qs.foldl Parser.orElse q)) :=
  (bind_foldl_orElse p (fun (q : Parser ρ β) v => q.map fun w => (v, w)) q qs).trans
    (.bind p fun v => .of_agree (Agree.map_foldl_orElse (fun w => (v, w)) q qs).symm)

/-- What holds of a chain of alternatives holds of a list of them. -/
theorem firstOf_of_foldl {seq : Parser ρ β → Parser ρ γ}
    (hseq : ∀ q r, Agree rules verbose q r → Agree rules verbose (seq q) (seq r))
    {q : Parser ρ β} {qs : List (Parser ρ β)}
    (h : SameOutcomes rules verbose ((qs.map seq).foldl Parser.orElse (seq q))
      (seq (qs.foldl Parser.orElse q))) :
    SameOutcomes rules verbose (firstOf ((q :: qs).map seq)) (seq (firstOf (q :: qs))) :=
  (of_agree (Agree.foldl_orElse (seq q) _).symm).trans
    (h.trans (.of_agree (hseq _ _ (Agree.foldl_orElse q qs))))

end SameOutcomes

/-- A parser that several alternatives start with can be taken out of them: they end as it does with
the alternatives behind it. This holds of `bind`, `keepRight` and `both`, and for two alternatives,
a chain or a list of them. -/
theorem left_factoring (rules : Rules ρ) (verbose : Bool) (p : Parser ρ α) :
    ((∀ f g : α → Parser ρ β, SameOutcomes rules verbose ((p.bind f).orElse (p.bind g))
        (p.bind fun v => (f v).orElse (g v))) ∧
      ∀ (f : α → Parser ρ β) (fs : List (α → Parser ρ β)),
        SameOutcomes rules verbose ((fs.map p.bind).foldl orElse (p.bind f))
          (p.bind fun v => (fs.map fun g => g v).foldl orElse (f v)) ∧
        SameOutcomes rules verbose (firstOf ((f :: fs).map p.bind))
          (p.bind fun v => firstOf ((f :: fs).map fun g => g v))) ∧
    ((∀ q r : Parser ρ β, SameOutcomes rules verbose ((p.keepRight q).orElse (p.keepRight r))
        (p.keepRight (q.orElse r))) ∧
      ∀ (q : Parser ρ β) (qs : List (Parser ρ β)),
        SameOutcomes rules verbose ((qs.map p.keepRight).foldl orElse (p.keepRight q))
          (p.keepRight (qs.foldl orElse q)) ∧
        SameOutcomes rules verbose (firstOf ((q :: qs).map p.keepRight))
          (p.keepRight (firstOf (q :: qs)))) ∧
    (∀ q r : Parser ρ β, SameOutcomes rules verbose ((p.both q).orElse (p.both r))
        (p.both (q.orElse r))) ∧
      ∀ (q : Parser ρ β) (qs : List (Parser ρ β)),
        SameOutcomes rules verbose ((qs.map p.both).foldl orElse (p.both q))
          (p.both (qs.foldl orElse q)) ∧
        SameOutcomes rules verbose (firstOf ((q :: qs).map p.both))
          (p.both (firstOf (q :: qs))) := by
  have hright {q r : Parser ρ β} (h : Agree rules verbose q r) :
      Agree rules verbose (p.keepRight q) (p.keepRight r) := (Agree.refl p).bind fun _ => h
  have hboth {q r : Parser ρ β} (h : Agree rules verbose q r) :
      Agree rules verbose (p.both q) (p.both r) := (Agree.refl p).bind fun v => h.map _
  refine ⟨⟨.bind_orElse p, fun f fs => ⟨.bind_foldl_orElse p (fun g => g) f fs,
    .bind_firstOf p f fs⟩⟩, ⟨fun q r => .keepRight_foldl_orElse p q [r], fun q qs => ⟨?_, ?_⟩⟩,
    fun q r => .both_foldl_orElse p q [r], fun q qs => ⟨?_, ?_⟩⟩
  · exact .keepRight_foldl_orElse p q qs
  · exact .firstOf_of_foldl (fun _ _ => hright) (.keepRight_foldl_orElse p q qs)
  · exact .both_foldl_orElse p q qs
  · exact .firstOf_of_foldl (fun _ _ => hboth) (.both_foldl_orElse p q qs)

end Parser
end Descent
