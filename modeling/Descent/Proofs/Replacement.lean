import Descent.Proofs.Likeness
import Descent.Proofs.Outcomes

/-!
# Rules that are replaced

`p` under some rules ends like `p'` under others if it has the same successes and the same aborts,
and fails where `p'` does, whatever the failures say (`Parser.EndsLike`). If the rules of a grammar
are replaced by parsers that end like them, then every parser that refers to the rules ends as it
did before (`Parser.endsLike_of_rules`).
-/

namespace Descent

/-- Any failures and any events. -/
def Likeness.butFailures : Likeness where
  failures _ _ := True
  events _ _ := True
  nil := trivial
  append _ _ := trivial

namespace Outcome.Alike

variable {α : Type} {o o' o'' : Outcome α}

theorem trans_butFailures (h : o.Alike .butFailures o') (h' : o'.Alike .butFailures o'') :
    o.Alike .butFailures o'' := by
  cases h with
  | success v c => exact h'
  | failure =>
    cases h' with
    | failure => exact .failure trivial
  | abort a => exact h'

theorem eq_abort {a : Abort} (h : o.Alike .butFailures o') (ho : o' = .abort a) : o = .abort a := by
  cases h with
  | success | failure => cases ho
  | abort => exact ho

theorem eq_of_not_failure (h : o.Alike .butFailures o') (ho : ∀ f, o ≠ .failure f) : o' = o := by
  cases h with
  | success | abort => rfl
  | failure => exact absurd rfl (ho _)

theorem filter_butFailures (accepts : α → Except Fault Bool) (shown : α → Except Fault Text)
    (description : Text) (start : Position) (h : o.Alike .butFailures o') :
    (o.filter accepts shown description start).Alike .butFailures
      (o'.filter accepts shown description start) := by
  cases h with
  | success v c => exact .refl (fun _ => trivial) _
  | failure => exact .failure trivial
  | abort a => exact .abort a

theorem label_butFailures (description : Text) (start : Position) (h : o.Alike .butFailures o') :
    (o.label description start).Alike .butFailures (o'.label description start) := by
  cases h with
  | success v c => exact .success v c
  | failure => exact .failure trivial
  | abort a => exact .abort a

end Outcome.Alike

namespace Run

variable {α : Type}

theorem Alike.traced_butFailures {r r' : Run α} (name : Text) (shown : α → Except Fault Text)
    (start : Position) (h : Alike .butFailures r r') :
    Alike .butFailures (r.traced name shown start) (r'.traced name shown start) := by
  rcases r with ⟨o, es⟩
  rcases r' with ⟨o', es'⟩
  refine ⟨?_, trivial⟩
  cases h.result with
  | success v d => exact .refl (fun _ => trivial) _
  | failure => exact .failure trivial
  | abort a => exact .abort a

/-- What is like a run that is like `r` is like `r`. -/
theorem Reproduced.trans {r : Run α} {f g : Nat → Run α} (h : Reproduced .butFailures r f)
    (h' : ∀ n, Reproduced .butFailures (f n) g) : Reproduced .butFailures r g := by
  intro hdeep
  obtain ⟨m, hm⟩ := h hdeep
  have halike := hm m (Nat.le_refl m)
  obtain ⟨k, hk⟩ := h' m fun hdeep' => hdeep (halike.result.eq_abort hdeep')
  exact ⟨k, fun n hn => ⟨halike.result.trans_butFailures (hk n hn).result, trivial⟩⟩

end Run

namespace Parser

variable {ρ : Type → Type} {rules rules' : Rules ρ} {verbose : Bool} {α β : Type} {c : Cursor}

/-- However `p` ends at `c` under `rules`, `p'` ends so under `rules'`, except for what failures
say. -/
def EndsLike (rules rules' : Rules ρ) (verbose : Bool) (c : Cursor) (p p' : Parser ρ α) : Prop :=
  ∀ o, p.EndsIn rules verbose c o →
    ∃ o', p'.EndsIn rules' verbose c o' ∧ o.Alike .butFailures o'

theorem endsLike_iff_reproduced {p p' : Parser ρ α} : EndsLike rules rules' verbose c p p' ↔
    ∀ n, Run.Reproduced .butFailures (p.run rules verbose n c) (p'.run rules' verbose · c) := by
  constructor
  · intro h n hdeep
    obtain ⟨o', ⟨es, hr⟩, halike⟩ := h _ ⟨_, hdeep, n, rfl⟩
    obtain ⟨m, hm⟩ := hr.eventually
    refine ⟨m, fun k hk => ⟨?_, trivial⟩⟩
    simp only [hm k hk]
    exact halike
  · rintro h o ⟨es, hdeep, n, hn⟩
    obtain ⟨m, hm⟩ := h n (hn ▸ hdeep)
    have halike := (hm m (Nat.le_refl m)).result
    rw [hn] at halike
    exact ⟨_, ⟨_, fun hdeep' => hdeep (halike.eq_abort hdeep'), m, rfl⟩, halike⟩

theorem reproduced_of_rules (hrules : ∀ {α : Type} (r : ρ α) (c : Cursor),
      EndsLike rules' rules' verbose c (rules _ r) (rules' _ r)) (p : Parser ρ α) (n : Nat)
    (c : Cursor) :
    Run.Reproduced .butFailures (p.run rules verbose n c) (p.run rules' verbose · c) := by
  induction n generalizing α c with
  | zero => exact fun hr => absurd rfl hr
  | succ n ih =>
    refine .of_succ ?_
    cases p with
    | anyChar | eof | pure | fail | throw => exact .of_alike fun _ => .quiet (fun _ => trivial) _
    | bind p k => exact (ih p c).andThen fun v d _ => ih (k v) d
    | tryMap f p => exact (ih p c).map (fun _ _ ho => ho.tryMap f) rfl
    | filter accepts shown description p =>
      exact (ih p c).map
        (fun _ _ ho => ho.filter_butFailures accepts shown description c.position) rfl
    | label description p =>
      exact (ih p c).map (fun _ _ ho => ho.label_butFailures description c.position) rfl
    | orElse p q => exact (ih p c).orElse fun _ => ih q c
    | anyOf k ps => exact .firstOf trivial fun i _ => ih (ps i) c
    | many p =>
      exact (Run.Reproduced.foldWhile fun _ d _ => ih p d).map (fun _ _ ho => ho.tryMap _) rfl
    | chainLeft operand operator =>
      refine (ih operand c).andThen fun v d _ => Run.Reproduced.foldWhile fun w e _ => ?_
      exact (ih operator e).andThen fun f x _ =>
        (ih operand x).map (fun _ _ ho => ho.tryMap _) rfl
    | trace name shown p =>
      cases verbose with
      | false => exact ih p c
      | true =>
        intro hr
        obtain ⟨m, hm⟩ := ih p c fun hdeep =>
          hr ((Run.tooDeep_traced_iff name shown c.position).2 hdeep)
        exact ⟨m, fun k hk => (hm k hk).traced_butFailures name shown c.position⟩
    | delay note p => exact (ih p c).after trivial
    | ref r => exact (ih (rules _ r) c).trans (endsLike_iff_reproduced.1 (hrules r c))

theorem endsLike_of_rules (hrules : ∀ {α : Type} (r : ρ α) (c : Cursor),
      EndsLike rules' rules' verbose c (rules _ r) (rules' _ r)) (p : Parser ρ α) (c : Cursor) :
    EndsLike rules rules' verbose c p p :=
  endsLike_iff_reproduced.2 fun n => reproduced_of_rules hrules p n c

namespace EndsLike

variable {p p' : Parser ρ α} {v : α} {d : Cursor}

theorem refl (p : Parser ρ α) (c : Cursor) : EndsLike rules rules verbose c p p :=
  fun o ho => ⟨o, ho, .refl (fun _ => trivial) o⟩

theorem trans {rules'' : Rules ρ} {p'' : Parser ρ α} (h : EndsLike rules rules' verbose c p p')
    (h' : EndsLike rules' rules'' verbose c p' p'') : EndsLike rules rules'' verbose c p p'' := by
  intro o ho
  obtain ⟨o', ho', halike⟩ := h o ho
  obtain ⟨o'', ho'', halike'⟩ := h' o' ho'
  exact ⟨o'', ho'', halike.trans_butFailures halike'⟩

theorem endsIn {o : Outcome α} (h : EndsLike rules rules' verbose c p p') (hf : ∀ f, o ≠ .failure f)
    (ho : p.EndsIn rules verbose c o) : p'.EndsIn rules' verbose c o := by
  obtain ⟨o', ho', halike⟩ := h o ho
  rwa [halike.eq_of_not_failure hf] at ho'

theorem succeeds (h : EndsLike rules rules' verbose c p p')
    (hv : p.Succeeds rules verbose c v d) : p'.Succeeds rules' verbose c v d :=
  succeeds_iff_endsIn.2 (h.endsIn (by simp) (succeeds_iff_endsIn.1 hv))

theorem aborts {a : Abort} (h : EndsLike rules rules' verbose c p p')
    (ha : p.Aborts rules verbose c a) : p'.Aborts rules' verbose c a :=
  aborts_iff_endsIn.2 (h.endsIn (by simp) (aborts_iff_endsIn.1 ha))

theorem fails (h : EndsLike rules rules' verbose c p p') (hf : p.Fails rules verbose c) :
    p'.Fails rules' verbose c := by
  obtain ⟨f, hf⟩ := fails_iff_endsIn.1 hf
  obtain ⟨o', ho', halike⟩ := h _ hf
  cases halike with
  | @failure _ f' => exact fails_iff_endsIn.2 ⟨f', ho'⟩

theorem bind {k k' : α → Parser ρ β} (h : EndsLike rules rules' verbose c p p')
    (hk : ∀ v d, EndsLike rules rules' verbose d (k v) (k' v)) :
    EndsLike rules rules' verbose c (p.bind k) (p'.bind k') := by
  simp only [endsLike_iff_reproduced] at h hk ⊢
  intro n
  cases n with
  | zero => exact fun hr => absurd rfl hr
  | succ n => exact .of_succ ((h n).andThen fun v d _ => hk v d n)

/-- Parsers of which no two come to anything but a failure can be tried in any order. -/
theorem firstOf_perm {ps qs : List (Parser ρ α)} (hperm : ps.Perm qs)
    (h : ps.Pairwise fun p q => p.Fails rules verbose c ∨ q.Fails rules verbose c) :
    EndsLike rules rules verbose c (firstOf ps) (firstOf qs) := by
  intro o ho
  by_cases hf : ∃ f, o = .failure f
  · obtain ⟨f, rfl⟩ := hf
    have hall := firstOf_fails_iff.1 (fails_iff_endsIn.2 ⟨f, ho⟩)
    obtain ⟨f', hf'⟩ := fails_iff_endsIn.1
      (firstOf_fails_iff.2 fun p hp => hall p (hperm.mem_iff.2 hp))
    exact ⟨_, hf', .failure trivial⟩
  · have hnot : ∀ f, o ≠ .failure f := fun f hof => hf ⟨f, hof⟩
    have hqs := (hperm.pairwise_iff Or.symm).1 h
    obtain ⟨p, hp, hend⟩ := (firstOf_endsIn_iff h hnot).1 ho
    exact ⟨o, (firstOf_endsIn_iff hqs hnot).2 ⟨p, hperm.mem_iff.1 hp, hend⟩,
      .refl (fun _ => trivial) o⟩

end EndsLike

end Parser
end Descent
