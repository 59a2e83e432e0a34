import Descent.Proofs.Calls
import Mathlib.Data.Finset.Lattice.Fold
import Mathlib.Data.Fintype.Basic

/-!
# Runs that are alike

Two runs are alike if they end in the same way, up to a relation between failures, with events up
to a relation between lists of events. A `Likeness` is such a pair of relations. Each operation on
runs keeps every likeness. `Run.Reproduced` is likeness apart from depth: the runs `f`, one for
each depth, are like `r` from some depth on, unless `r` is cut off.
-/

namespace Descent

/-- Which failures and which events count as the same in two runs. -/
structure Likeness where
  failures : Failure → Failure → Prop
  events : List Event → List Event → Prop
  nil : events [] []
  append {es es' fs fs' : List Event} (h : events es es') (h' : events fs fs') :
    events (es ++ fs) (es' ++ fs')

/-- The same value at the same place, failures that count as the same, or the same abort. -/
inductive Outcome.Alike {α : Type} (L : Likeness) : Outcome α → Outcome α → Prop where
  | success (v : α) (c : Cursor) : Alike L (success v c) (success v c)
  | failure {f f' : Failure} (h : L.failures f f') : Alike L (failure f) (failure f')
  | abort (a : Abort) : Alike L (abort a) (abort a)

namespace Outcome.Alike

variable {α β : Type} {L : Likeness} {o o' : Outcome α}

theorem refl (hL : ∀ f, L.failures f f) (o : Outcome α) : o.Alike L o := by
  cases o with
  | success v c => exact .success v c
  | failure f => exact .failure (hL f)
  | abort a => exact .abort a

theorem tryMap (f : α → Except Fault β) (h : o.Alike L o') :
    (o.tryMap f).Alike L (o'.tryMap f) := by
  cases h with
  | success v c =>
    simp only [Outcome.tryMap]
    cases f v with
    | ok w => exact .success w c
    | error e => exact .abort _
  | failure h => exact .failure h
  | abort a => exact .abort a

theorem eq (hL : ∀ f f', L.failures f f' → f = f') (h : o.Alike L o') : o = o' := by
  cases h with
  | success | abort => rfl
  | failure h => rw [hL _ _ h]

end Outcome.Alike

namespace Run

variable {α β : Type} {L : Likeness}

structure Alike (L : Likeness) (r r' : Run α) : Prop where
  result : r.result.Alike L r'.result
  events : L.events r.events r'.events

namespace Alike

variable {r r' : Run α}

theorem quiet (hL : ∀ f, L.failures f f) (o : Outcome α) : Alike L ⟨o, []⟩ ⟨o, []⟩ :=
  ⟨.refl hL o, L.nil⟩

theorem after {es es' : List Event} (hes : L.events es es') (h : Alike L r r') :
    Alike L (r.after es) (r'.after es') :=
  ⟨h.result, L.append hes h.events⟩

theorem map {F F' : Outcome α → Outcome β} (hF : ∀ o o', o.Alike L o' → (F o).Alike L (F' o'))
    (h : Alike L r r') : Alike L (Recorded.map F r) (Recorded.map F' r') :=
  ⟨hF _ _ h.result, h.events⟩

theorem andThen {k k' : α → Cursor → Run β} (h : Alike L r r')
    (hk : ∀ v c, r.result = .success v c → Alike L (k v c) (k' v c)) :
    Alike L (r.andThen k) (r'.andThen k') := by
  rcases r with ⟨o, es⟩
  rcases r' with ⟨o', es'⟩
  rcases h with ⟨ho, hes⟩
  cases ho with
  | success v c => exact (hk v c rfl).after hes
  | failure hf => exact ⟨.failure hf, hes⟩
  | abort a => exact ⟨.abort a, hes⟩

theorem orElse {q q' : Unit → Run α} (h : Alike L r r')
    (hq : (∃ f, r.result = .failure f) → Alike L (q ()) (q' ())) :
    Alike L (r.orElse q) (r'.orElse q') := by
  rcases r with ⟨o, es⟩
  rcases r' with ⟨o', es'⟩
  rcases h with ⟨ho, hes⟩
  cases ho with
  | success v c => exact ⟨.success v c, hes⟩
  | failure hf => exact (hq ⟨_, rfl⟩).after hes
  | abort a => exact ⟨.abort a, hes⟩

theorem firstOf {n : Nat} {attempt attempt' : Fin n → Unit → Run α} {last last' : Failure}
    (hlast : L.failures last last')
    (h : ∀ i, (∀ j < i, ∃ e, (attempt j ()).result = .failure e) →
      Alike L (attempt i ()) (attempt' i ())) :
    Alike L (firstOf last (.ofFn attempt)) (firstOf last' (.ofFn attempt')) := by
  induction n generalizing last last' with
  | zero => exact ⟨.failure hlast, L.nil⟩
  | succ n ih =>
    simp only [List.ofFn_succ, Run.firstOf]
    have hfirst := h 0 fun j hj => absurd hj (Fin.not_lt_zero j)
    have hrest : ∀ e, (attempt 0 ()).result = .failure e → ∀ i : Fin n,
        (∀ j < i, ∃ e, (attempt j.succ ()).result = .failure e) →
        Alike L (attempt i.succ ()) (attempt' i.succ ()) := by
      intro e he i hi
      refine h i.succ fun j hj => ?_
      cases j using Fin.cases with
      | zero => exact ⟨e, he⟩
      | succ j => exact hi j (Fin.succ_lt_succ_iff.1 hj)
    revert hfirst hrest
    rcases attempt 0 () with ⟨o, es⟩
    rcases attempt' 0 () with ⟨o', es'⟩
    rintro ⟨ho, hes⟩ hrest
    cases ho with
    | success v c => exact ⟨.success v c, hes⟩
    | failure hf => exact (ih hf (hrest _ rfl)).after hes
    | abort a => exact ⟨.abort a, hes⟩

/-- What follows a round that took nothing is alike if the events of the round are. -/
theorem stalled {es es' : List Event} (hes : L.events es es') (o : Option (Nat × Fault)) :
    Alike (α := α) L (stalled es o) (stalled es' o) := by
  cases o with
  | none => exact ⟨.abort _, L.nil⟩
  | some r =>
    rcases r with ⟨n, e⟩
    refine ⟨.abort _, ?_⟩
    show L.events (List.replicate n es).flatten (List.replicate n es').flatten
    induction n with
    | zero => exact L.nil
    | succ n ih => simpa only [List.replicate_succ, List.flatten_cons] using L.append hes ih

/-- Repetitions are alike if their first rounds are, and what follows those that took something. -/
theorem foldWhile_of_round {step step' : Cursor → Run β} {combine : α → β → Except Fault α}
    {acc : α} {c : Cursor} (hround : Alike L (step c) (step' c))
    (hrest : ∀ v d acc', (step c).result = .success v d → combine acc v = .ok acc' →
      d.unreadCount < c.unreadCount →
      Alike L (Run.foldWhile step combine acc' d) (Run.foldWhile step' combine acc' d)) :
    Alike L (Run.foldWhile step combine acc c) (Run.foldWhile step' combine acc c) := by
  rw [foldWhile_eq, foldWhile_eq step']
  revert hround hrest
  rcases step c with ⟨o, es⟩
  rcases step' c with ⟨o', es'⟩
  rintro ⟨ho, hes⟩ hrest
  cases ho with
  | failure hf => exact ⟨.success acc c, hes⟩
  | abort a => exact ⟨.abort a, hes⟩
  | success v d =>
    cases hacc : combine acc v with
    | error e => simpa only [hacc] using ⟨.abort _, hes⟩
    | ok acc' =>
      by_cases hd : d.unreadCount < c.unreadCount
      · simpa only [hacc, hd, if_true] using (hrest v d acc' rfl hacc hd).after hes
      · simpa only [hacc, hd, if_false] using (stalled hes _).after hes

end Alike

theorem Decides.self {r : Run α} : Decides (fun v c => r.result = .success v c) r :=
  ⟨fun _ _ h => h, fun _ _ => .inr⟩

/-! ### Likeness apart from depth -/

/-- From some depth on the runs `f` are like `r`, unless `r` is cut off. -/
def Reproduced (L : Likeness) (r : Run α) (f : Nat → Run α) : Prop :=
  ¬ r.TooDeep → ∃ m, ∀ n, m ≤ n → Alike L r (f n)

namespace Reproduced

variable {r : Run α} {f : Nat → Run α}

theorem of_alike (h : ∀ n, Alike L r (f n)) : Reproduced L r f := fun _ => ⟨0, fun n _ => h n⟩

/-- Runs that spend one more unit of depth. -/
theorem of_succ (h : Reproduced L r fun n => f (n + 1)) : Reproduced L r f := by
  intro hr
  obtain ⟨m, hm⟩ := h hr
  refine ⟨m + 1, fun n hn => ?_⟩
  obtain ⟨n, rfl⟩ : ∃ k, n = k + 1 := ⟨n - 1, by omega⟩
  exact hm n (by omega)

theorem after {es es' : List Event} (hes : L.events es es') (h : Reproduced L r f) :
    Reproduced L (r.after es) fun n => (f n).after es' := by
  intro hr
  obtain ⟨m, hm⟩ := h hr
  exact ⟨m, fun n hn => (hm n hn).after hes⟩

theorem map {F F' : Outcome α → Outcome β} (hF : ∀ o o', o.Alike L o' → (F o).Alike L (F' o'))
    (hdeep : F (.abort .tooDeep) = .abort .tooDeep) (h : Reproduced L r f) :
    Reproduced L (Recorded.map F r) fun n => Recorded.map F' (f n) := by
  intro hr
  obtain ⟨m, hm⟩ := h fun e => hr ((congrArg F e).trans hdeep)
  exact ⟨m, fun n hn => (hm n hn).map hF⟩

theorem andThen {k : α → Cursor → Run β} {g : α → Cursor → Nat → Run β}
    (h : Reproduced L r f)
    (hk : ∀ v c, r.result = .success v c → Reproduced L (k v c) (g v c)) :
    Reproduced L (r.andThen k) fun n => (f n).andThen fun v c => g v c n := by
  intro hr
  rw [tooDeep_andThen_iff .self, not_or] at hr
  obtain ⟨m, hm⟩ := h hr.1
  by_cases hv : ∃ v c, r.result = .success v c
  · obtain ⟨v, c, hv⟩ := hv
    obtain ⟨l, hl⟩ := hk v c hv fun hdeep => hr.2 ⟨v, c, hv, hdeep⟩
    refine ⟨max m l, fun n hn => (hm n (by omega)).andThen fun w d hw => ?_⟩
    cases hv.symm.trans hw
    exact hl n (by omega)
  · exact ⟨m, fun n hn => (hm n hn).andThen fun v c hvc => absurd ⟨v, c, hvc⟩ hv⟩

theorem orElse {q : Unit → Run α} {g : Nat → Run α} (h : Reproduced L r f)
    (hq : (∃ e, r.result = .failure e) → Reproduced L (q ()) g) :
    Reproduced L (r.orElse q) fun n => (f n).orElse fun _ => g n := by
  intro hr
  rw [tooDeep_orElse_iff id .inr, not_or] at hr
  obtain ⟨m, hm⟩ := h hr.1
  by_cases hfail : ∃ e, r.result = .failure e
  · obtain ⟨l, hl⟩ := hq hfail fun hdeep => hr.2 ⟨hfail, hdeep⟩
    exact ⟨max m l, fun n hn => (hm n (by omega)).orElse fun _ => hl n (by omega)⟩
  · exact ⟨m, fun n hn => (hm n hn).orElse fun he => absurd he hfail⟩

theorem firstOf {k : Nat} {attempt : Fin k → Unit → Run α} {g : Fin k → Nat → Run α}
    {last last' : Failure} (hlast : L.failures last last')
    (h : ∀ i, (∀ j < i, ∃ e, (attempt j ()).result = .failure e) →
      Reproduced L (attempt i ()) (g i)) :
    Reproduced L (firstOf last (.ofFn attempt))
      fun n => firstOf last' (.ofFn fun i _ => g i n) := by
  intro hr
  rw [tooDeep_firstOf_iff (fun _ => id) fun _ => .inr] at hr
  have hdepth : ∀ i, ∃ m, (∀ j < i, ∃ e, (attempt j ()).result = .failure e) →
      ∀ n, m ≤ n → Alike L (attempt i ()) (g i n) := by
    intro i
    by_cases hi : ∀ j < i, ∃ e, (attempt j ()).result = .failure e
    · obtain ⟨m, hm⟩ := h i hi fun hdeep => hr ⟨i, hi, hdeep⟩
      exact ⟨m, fun _ => hm⟩
    · exact ⟨0, fun hi' => absurd hi' hi⟩
  choose m hm using hdepth
  refine ⟨Finset.univ.sup m, fun n hn => Alike.firstOf hlast fun i hi => hm i hi n ?_⟩
  exact Nat.le_trans (Finset.le_sup (Finset.mem_univ i)) hn

/-- There are finitely many rounds that take something, so that one depth is enough for all of
them. -/
theorem foldWhile {step : Cursor → Run β} {g : Cursor → Nat → Run β}
    {combine : α → β → Except Fault α} {acc : α} {c : Cursor}
    (h : ∀ acc' d, Rounds (fun c v d => (step c).result = .success v d) combine acc c acc' d →
      Reproduced L (step d) (g d)) :
    Reproduced L (foldWhile step combine acc c) fun n => foldWhile (g · n) combine acc c := by
  intro hr
  induction hn : c.unreadCount using Nat.strongRecOn generalizing acc c with
  | _ n ih =>
    obtain ⟨m, hm⟩ := h acc c (.refl acc c) fun hdeep => hr (by
      rw [foldWhile_eq, show (step c).result = _ from hdeep]; rfl)
    by_cases hnext : ∃ v d acc', (step c).result = .success v d ∧ combine acc v = .ok acc' ∧
        d.unreadCount < c.unreadCount
    · obtain ⟨v, d, acc', hv, hacc, hd⟩ := hnext
      obtain ⟨l, hl⟩ := ih _ (hn ▸ hd) (fun acc'' e he => h acc'' e (.head hv hacc he))
        (fun hdeep => hr ((foldWhile_round (.inl hd) hv hacc).1.trans hdeep)) rfl
      refine ⟨max m l, fun k hk => Alike.foldWhile_of_round (hm k (by omega)) ?_⟩
      intro v' d' acc'' hv' hacc' _
      cases hv.symm.trans hv'
      cases hacc.symm.trans hacc'
      exact hl k (by omega)
    · refine ⟨m, fun k hk => Alike.foldWhile_of_round (hm k hk) fun v d acc' hv hacc hd => ?_⟩
      exact absurd ⟨v, d, acc', hv, hacc, hd⟩ hnext

end Reproduced
end Run
end Descent
