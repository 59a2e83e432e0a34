import Descent.Proofs.Steps

/-!
# Steps at more depth

With more depth a run has the same steps, or it goes on where it was cut off
(`Parser.curtailed_steps`). In particular a run that has come to an end is not the front part of a
run, at some other depth, that is aborted (`Parser.not_prefix_of_abort`).
-/

namespace Descent

section
variable {ρ : Type → Type} {α β : Type} {s s' t : List (Step ρ)}

/-- The steps `s` are `t`, or they are cut off where `t` goes on with another parser. -/
def Curtailed (s t : List (Step ρ)) : Prop :=
  s = t ∨ ∃ u T, s = u ++ [.aborts .tooDeep] ∧ u ++ [.starts T] <+: t

/-- A run with its steps, and what becomes of it at more depth. -/
structure Deepens (s s' : List (Step ρ)) (r r' : Run α) : Prop where
  steps : Curtailed s s'
  run : ¬ r.TooDeep → r' = r
  tells : Tells s r.result
  tells' : Tells s' r'.result

namespace Curtailed

theorem refl (s : List (Step ρ)) : Curtailed s s := .inl rfl

theorem append_left (u : List (Step ρ)) (h : Curtailed s t) : Curtailed (u ++ s) (u ++ t) := by
  rcases h with rfl | ⟨v, T, rfl, hT⟩
  · exact .refl _
  · refine .inr ⟨u ++ v, T, (List.append_assoc ..).symm, ?_⟩
    rw [List.append_assoc]
    exact (List.prefix_append_right_inj u).2 hT

theorem ifSuccess {o : Outcome α} {k k' : α → Cursor → List (Step ρ)}
    (h : ∀ v c, Curtailed (k v c) (k' v c)) :
    Curtailed (Step.ifSuccess o k) (Step.ifSuccess o k') := by
  cases o with
  | success v c => exact h v c
  | failure | abort => exact .refl _

theorem ifFailure (o : Outcome α) (h : Curtailed s t) :
    Curtailed (Step.ifFailure o s) (Step.ifFailure o t) := by
  cases o with
  | failure f => exact h
  | success | abort => exact .refl _

/-- Steps `k` that depend on how the steps in front of them end, and are none behind an abort. They
may hold those steps again, which are the same at more depth where there is anything behind them. -/
theorem behind {r r' : Run α} (k k' : Outcome α → List (Step ρ)) (h : Deepens s s' r r')
    (hk : s = s' → ∀ o, Curtailed (k o) (k' o)) (habort : k (.abort .tooDeep) = [])
    (habort' : k' (.abort .tooDeep) = []) :
    Curtailed (s ++ k r.result) (s' ++ k' r'.result) := by
  by_cases hdeep : r.TooDeep
  · rw [show r.result = _ from hdeep, habort, List.append_nil]
    rcases h.steps with rfl | ⟨u, T, rfl, hT⟩
    · have hdeep' : r'.result = .abort .tooDeep := h.tells'.mem_iff.1 (h.tells.mem_iff.2 hdeep)
      rw [hdeep', habort', List.append_nil]
      exact .refl _
    · exact .inr ⟨u, T, rfl, hT.trans (List.prefix_append ..)⟩
  · rcases h.steps with rfl | ⟨u, T, rfl, -⟩
    · rw [h.run hdeep]
      exact (hk rfl _).append_left _
    · exact absurd (h.tells.mem_iff.1 (by simp)) hdeep

theorem behindSuccess {r r' : Run α} {k k' : α → Cursor → List (Step ρ)}
    (h : Deepens s s' r r') (hk : s = s' → ∀ v c, Curtailed (k v c) (k' v c)) :
    Curtailed (s ++ Step.ifSuccess r.result k) (s' ++ Step.ifSuccess r'.result k') :=
  behind (Step.ifSuccess · k) (Step.ifSuccess · k') h (fun hs _ => ifSuccess (hk hs)) rfl rfl

theorem behindFailure {r r' : Run α} (h : Deepens s s' r r') {u u' : List (Step ρ)}
    (hu : Curtailed u u') :
    Curtailed (s ++ Step.ifFailure r.result u) (s' ++ Step.ifFailure r'.result u') :=
  behind (Step.ifFailure · u) (Step.ifFailure · u') h (fun _ o => ifFailure o hu) rfl rfl

theorem ofAlternatives {n : Nat} {s s' : Fin n → List (Step ρ)} {r r' : Fin n → Run α}
    (h : ∀ i, Deepens (s i) (s' i) (r i) (r' i)) :
    Curtailed (Step.ofAlternatives (.ofFn fun i => ((r i).result, s i)))
      (Step.ofAlternatives (.ofFn fun i => ((r' i).result, s' i))) := by
  induction n with
  | zero => exact .refl _
  | succ n ih =>
    simp only [List.ofFn_succ, Step.ofAlternatives]
    exact behindFailure (h 0) (ih fun i => h i.succ)

theorem ofRounds {step step' : Cursor → Run β} {s s' : Cursor → List (Step ρ)}
    {before : List (Step ρ)} {combine : α → β → Except Fault α} {acc : α} {c : Cursor}
    (h : ∀ c, Deepens (s c) (s' c) (step c) (step' c)) :
    Curtailed (Step.ofRounds step s before combine acc c)
      (Step.ofRounds step' s' before combine acc c) := by
  induction hn : c.unreadCount using Nat.strongRecOn generalizing acc c with
  | _ n ih =>
    rw [Step.ofRounds, Step.ofRounds]
    refine behindSuccess (h c) fun hs v d => append_left before ?_
    cases combine acc v with
    | error e => exact .refl _
    | ok acc' =>
      by_cases hd : d.unreadCount < c.unreadCount
      · simp only [hd, if_true]
        exact ih _ (hn ▸ hd) rfl
      · simp only [hd, if_false, hs]
        exact .refl _

end Curtailed
end

namespace Parser

variable {ρ : Type → Type} {rules : Rules ρ} {verbose : Bool} {m n : Nat} {α : Type}
  {p : Parser ρ α} {c : Cursor}

theorem deepens_run (hmn : m ≤ n)
    (h : Curtailed (p.steps rules verbose m c) (p.steps rules verbose n c)) :
    Deepens (p.steps rules verbose m c) (p.steps rules verbose n c)
      (p.run rules verbose m c) (p.run rules verbose n c) :=
  ⟨h, run_of_le hmn, (narrates_run ..).ending, (narrates_run ..).ending⟩

/-- More depth changes no steps, except that a run goes on where it was cut off. -/
theorem curtailed_steps (rules : Rules ρ) (verbose : Bool) (hmn : m ≤ n) (p : Parser ρ α)
    (c : Cursor) : Curtailed (p.steps rules verbose m c) (p.steps rules verbose n c) := by
  induction m generalizing n α c with
  | zero =>
    cases n with
    | zero => exact .refl _
    | succ n => exact .inr ⟨[], ⟨p, c⟩, rfl, _, rfl⟩
  | succ m ih =>
    obtain ⟨n, rfl⟩ : ∃ k, n = k + 1 := ⟨n - 1, by omega⟩
    have hle : m ≤ n := by omega
    have hpart {β : Type} (q : Parser ρ β) (d : Cursor) :
        Deepens (q.steps rules verbose m d) (q.steps rules verbose n d)
          (q.run rules verbose m d) (q.run rules verbose n d) := deepens_run hle (ih hle q d)
    have hstart {s t : List (Step ρ)} (h : Curtailed s t) :
        Curtailed (.starts ⟨p, c⟩ :: s) (.starts ⟨p, c⟩ :: t) := h.append_left [.starts ⟨p, c⟩]
    cases p with
    | anyChar | eof | pure | fail | throw => exact .refl _
    | bind p k =>
      refine hstart (.behindSuccess (hpart p c) fun _ v d => ?_)
      exact (hpart (k v) d).steps.append_left [.calls]
    | tryMap f p => exact hstart (.behindSuccess (hpart p c) fun _ _ _ => .refl _)
    | filter accepts shown description p =>
      exact hstart (.behindSuccess (hpart p c) fun _ _ _ => .refl _)
    | label description p => exact hstart (hpart p c).steps
    | orElse p q => exact hstart (.behindFailure (hpart p c) (hpart q c).steps)
    | anyOf k ps => exact hstart (.ofAlternatives fun i => hpart (ps i) c)
    | many p => exact hstart (.ofRounds fun d => hpart p d)
    | chainLeft operand operator =>
      refine hstart (.behindSuccess (hpart operand c) fun _ v d => .ofRounds fun d => ?_)
      have hround (k : Nat) := (narrates_run rules verbose k operator d).andThen fun f e =>
        (narrates_run rules verbose k operand e).tryMap_ok fun w => (f, w)
      refine ⟨.behindSuccess (hpart operator d) fun _ _ e => (hpart operand e).steps, ?_,
        (hround m).ending, (hround n).ending⟩
      exact Run.andThen_congr (run_of_le hle) fun f e => Run.map_congr rfl (run_of_le hle)
    | trace name shown p =>
      cases verbose with
      | false => exact hstart (hpart p c).steps
      | true =>
        have hend := Curtailed.behind (Step.ofTracedEnd name shown) (Step.ofTracedEnd name shown)
          (hpart p c) (fun _ _ => .refl _) rfl rfl
        exact hstart (hend.append_left [.records (.trying name c.position)])
    | delay note p => exact hstart ((hpart p c).steps.append_left [.records (.built note)])
    | ref r => exact hstart (hpart (rules _ r) c).steps

/-- What has ended at one depth is not aborted behind its end at another. -/
theorem not_prefix_of_abort {a : Abort}
    (hm : ∀ b, (p.run rules verbose m c).result ≠ .abort b)
    (hn : (p.run rules verbose n c).result = .abort a) :
    ¬ p.steps rules verbose m c <+: p.steps rules verbose n c := by
  have hunbroken := unbroken_steps hm
  rcases Nat.le_total m n with hle | hle
  · rw [run_of_le hle (hm _)] at hn
    exact absurd hn (hm a)
  · rcases curtailed_steps rules verbose hle p c with heq | ⟨u, T, heq, hT⟩
    · exact absurd (aborts_mem_steps_iff.2 hn) (heq ▸ hunbroken a)
    · intro h
      rw [heq] at h
      have hlen : (u ++ [Step.starts T]).length = (u ++ [Step.aborts (ρ := ρ) .tooDeep]).length :=
        by simp
      have hsame := (hT.trans h).eq_of_length hlen
      simp at hsame

end Parser
end Descent
