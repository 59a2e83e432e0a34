import Descent.Proofs.Faults
import Descent.Proofs.Settling
import Mathlib.Data.Finset.Lattice.Fold
import Mathlib.Data.Fintype.Basic

/-!
# Where faults come from

A parse that ends in a fault has it from a callback: some parser that it runs calls a function that
raises it (`Parser.exists_raises`). Parsers have no faults of their own, since a character is looked
at only where there is one. So a parse whose callbacks return comes to a value or a failure wherever
it starts, also beyond the end of its text (`Parser.faults_are_raised`).
-/

namespace Descent

namespace Outcome

variable {α β : Type} {o : Outcome α} {e : Fault}

theorem of_tryMap_eq_fault {f : α → Except Fault β} (h : o.tryMap f = .abort (.fault e)) :
    o = .abort (.fault e) ∨ ∃ v d, o = .success v d ∧ f v = .error e := by
  cases o with
  | failure f => cases h
  | abort a => exact .inl (congrArg _ (Outcome.abort.inj h))
  | success v d =>
    cases hv : f v with
    | ok w => simp only [tryMap, hv] at h; cases h
    | error x =>
      simp only [tryMap, hv] at h
      obtain rfl := Abort.fault.inj (Outcome.abort.inj h)
      exact .inr ⟨v, d, rfl, hv⟩

theorem of_filter_eq_fault {accepts : α → Except Fault Bool} {shown : α → Except Fault Text}
    {description : Text} {start : Position}
    (h : o.filter accepts shown description start = .abort (.fault e)) :
    o = .abort (.fault e) ∨ ∃ v d, o = .success v d ∧
      (accepts v = .error e ∨ accepts v = .ok false ∧ shown v = .error e) := by
  cases o with
  | failure f => cases h
  | abort a => exact .inl h
  | success v d =>
    refine .inr ⟨v, d, rfl, ?_⟩
    rcases hv : accepts v with x | _ | _
    · simp only [filter, hv] at h
      exact .inl (congrArg _ (Abort.fault.inj (Outcome.abort.inj h)))
    · cases hs : shown v with
      | ok t => simp only [filter, hv, hs] at h; cases h
      | error x =>
        simp only [filter, hv, hs] at h
        exact .inr ⟨rfl, congrArg _ (Abort.fault.inj (Outcome.abort.inj h))⟩
    · simp only [filter, hv] at h; cases h

theorem of_label_eq_abort {description : Text} {start : Position} {a : Abort}
    (h : o.label description start = .abort a) : o = .abort a := by
  cases o with
  | failure f => cases h
  | success | abort => exact h

end Outcome

namespace Run

variable {α β : Type} {r : Run α} {a : Abort}

theorem of_andThen_eq_abort {k : α → Cursor → Run β} (h : (r.andThen k).result = .abort a) :
    r.result = .abort a ∨ ∃ v d, r.result = .success v d ∧ (k v d).result = .abort a := by
  simp only [andThen] at h
  split at h
  · next v d hv => exact .inr ⟨v, d, hv, h⟩
  · cases h
  · next b hb => exact .inl (hb.trans (congrArg _ (Outcome.abort.inj h)))

theorem of_orElse_eq_abort {q : Unit → Run α} (h : (r.orElse q).result = .abort a) :
    r.result = .abort a ∨ (∃ f, r.result = .failure f) ∧ (q ()).result = .abort a := by
  simp only [orElse] at h
  split at h
  · next f hf => exact .inr ⟨⟨f, hf⟩, h⟩
  · exact .inl h

/-- Alternatives abort if one of them does, and those in front of it fail. -/
theorem firstOf_eq_abort_iff {n : Nat} {attempt : Fin n → Unit → Run α} {last : Failure} :
    (firstOf last (.ofFn attempt)).result = .abort a ↔ ∃ i,
      (∀ j < i, ∃ f, (attempt j ()).result = .failure f) ∧ (attempt i ()).result = .abort a := by
  induction n generalizing last with
  | zero => simp [firstOf, failure]
  | succ n ih =>
    rw [List.ofFn_succ, Fin.exists_fin_succ]
    simp only [firstOf, Fin.forall_fin_succ, Fin.succ_lt_succ_iff, Fin.succ_pos, forall_const,
      Fin.not_lt_zero, false_implies, true_and]
    cases hr : (attempt 0 ()).result with
    | failure f => simp [Recorded.after, ih]
    | success | abort => simp [hr]

theorem of_traced_eq_fault {name : Text} {shown : α → Except Fault Text} {start : Position}
    {e : Fault} (h : (r.traced name shown start).result = .abort (.fault e)) :
    r.result = .abort (.fault e) ∨ ∃ v d, r.result = .success v d ∧ shown v = .error e := by
  have h : (tracedEnd name shown r.result).result = .abort (.fault e) := h
  cases hr : r.result with
  | failure f => rw [hr] at h; cases h
  | abort a => rw [hr] at h; exact .inl h
  | success v d =>
    rw [hr] at h
    cases hv : shown v with
    | ok t => simp only [tracedEnd, hv] at h; cases h
    | error x =>
      simp only [tracedEnd, hv] at h
      obtain rfl := Abort.fault.inj (Outcome.abort.inj h)
      exact .inr ⟨v, d, rfl, hv⟩

end Run

namespace Parser

variable {ρ : Type → Type} {rules : Rules ρ} {verbose : Bool} {α : Type}

/-- A callback of `p` raises `e` when `p` runs at `c`: it is called with the value that its parser
came to there. What is applied in a chain is an operator that the chain has read. -/
def Raises (rules : Rules ρ) (verbose : Bool) : {α : Type} → Parser ρ α → Cursor → Fault → Prop
  | _, throw fault, _, e => fault = e
  | _, tryMap f p, c, e => ∃ v d, p.Succeeds rules verbose c v d ∧ f v = .error e
  | _, filter accepts shown _ p, c, e => ∃ v d, p.Succeeds rules verbose c v d ∧
      (accepts v = .error e ∨ accepts v = .ok false ∧ shown v = .error e)
  | _, chainLeft operand operator, c, e => ∃ v d w x, operand.Succeeds rules verbose c v d ∧
      Run.Rounds (RoundSucceeds rules verbose operand operator) (fun v (f, w) => f v w) v d w x ∧
      RoundRaises rules verbose operand operator w x e
  | _, trace _ shown p, c, e => verbose = true ∧
      ∃ v d, p.Succeeds rules verbose c v d ∧ shown v = .error e
  | _, anyChar, _, _ | _, eof, _, _ | _, .pure _, _, _ | _, fail _, _, _ | _, bind _ _, _, _
  | _, label _ _, _, _ | _, orElse _ _, _, _ | _, anyOf _ _, _, _ | _, many _, _, _
  | _, delay _ _, _, _ | _, ref _, _, _ => False

/-- No callback raises anything in a run of `p` at `c`, in whatever parser it runs. -/
def CallbacksReturn (rules : Rules ρ) (verbose : Bool) (p : Parser ρ α) (c : Cursor) : Prop :=
  ∀ (q : Task ρ) e, Task.Runs rules verbose ⟨p, c⟩ q → ¬ q.parser.Raises rules verbose q.cursor e

theorem of_chainRound_eq_abort {operand : Parser ρ α}
    {operator : Parser ρ (α → α → Except Fault α)} {n : Nat} {c : Cursor} {e : Fault}
    (h : (chainRound rules verbose operand operator n c).result = .abort (.fault e)) :
    (operator.run rules verbose n c).result = .abort (.fault e) ∨
      ∃ f d, operator.Succeeds rules verbose c f d ∧
        (operand.run rules verbose n d).result = .abort (.fault e) := by
  rcases Run.of_andThen_eq_abort h with h | ⟨f, d, hf, h⟩
  · exact .inl h
  · rcases Outcome.of_tryMap_eq_fault (f := fun w => .ok (f, w)) h with h | ⟨_, _, _, hw⟩
    · exact .inr ⟨f, d, ⟨n, hf⟩, h⟩
    · cases hw

/-- A run ends in a fault because of its callbacks, or because of a run that it calls. -/
theorem of_run_eq_fault {p : Parser ρ α} {n : Nat} {c : Cursor} {e : Fault}
    (h : (p.run rules verbose (n + 1) c).result = .abort (.fault e)) :
    p.Raises rules verbose c e ∨ ∃ q : Task ρ, p.Calls rules verbose c q ∧
      (q.parser.run rules verbose n q.cursor).result = .abort (.fault e) := by
  have hnever {o : Outcome α} (ho : o.Ends fun _ => False) : o ≠ .abort (.fault e) := by
    intro hfault
    obtain ⟨_, -, hfalse⟩ := ho _ hfault
    exact hfalse
  cases p with
  | anyChar => exact absurd h (hnever (.readChar c))
  | eof => exact absurd h (hnever (.readEnd c))
  | pure v => cases h
  | fail message => cases h
  | throw fault => exact .inl (Abort.fault.inj (Outcome.abort.inj h))
  | bind p k =>
    rcases Run.of_andThen_eq_abort h with h | ⟨v, d, hv, h⟩
    · exact .inr ⟨⟨p, c⟩, .inl rfl, h⟩
    · exact .inr ⟨⟨k v, d⟩, .inr ⟨v, d, ⟨n, hv⟩, rfl⟩, h⟩
  | tryMap f p =>
    rcases Outcome.of_tryMap_eq_fault h with h | ⟨v, d, hv, hf⟩
    · exact .inr ⟨⟨p, c⟩, rfl, h⟩
    · exact .inl ⟨v, d, ⟨n, hv⟩, hf⟩
  | filter accepts shown description p =>
    rcases Outcome.of_filter_eq_fault h with h | ⟨v, d, hv, hf⟩
    · exact .inr ⟨⟨p, c⟩, rfl, h⟩
    · exact .inl ⟨v, d, ⟨n, hv⟩, hf⟩
  | label description p => exact .inr ⟨⟨p, c⟩, rfl, Outcome.of_label_eq_abort h⟩
  | orElse p p' =>
    rcases Run.of_orElse_eq_abort h with h | ⟨⟨f, hf⟩, h⟩
    · exact .inr ⟨⟨p, c⟩, .inl rfl, h⟩
    · exact .inr ⟨⟨p', c⟩, .inr ⟨⟨n, f, hf⟩, rfl⟩, h⟩
  | anyOf k ps =>
    obtain ⟨i, hi, h⟩ := Run.firstOf_eq_abort_iff.1 h
    exact .inr ⟨⟨ps i, c⟩, ⟨i, fun j hj => ⟨n, hi j hj⟩, rfl⟩, h⟩
  | many p =>
    simp only [run, Recorded.map] at h
    rcases Outcome.of_tryMap_eq_fault h with h | ⟨_, _, _, hf⟩
    · obtain ⟨vs, d, hrounds, h | ⟨_, _, _, _, hf, _⟩⟩ | ⟨ha, -⟩ :=
        (Run.foldWhile_eq_abort_iff ((advances_succeeds p).at n)).1 h
      · exact .inr ⟨⟨p, d⟩, ⟨vs, d, hrounds.mono fun c v d hv => ⟨n, hv⟩, rfl⟩, h⟩
      · cases hf
      · cases ha
    · cases hf
  | chainLeft operand operator =>
    rcases Run.of_andThen_eq_abort h with h | ⟨v, d, hv, h⟩
    · exact .inr ⟨⟨operand, c⟩, .inl rfl, h⟩
    · have hround (c : Cursor) (x : _) (e : Cursor)
          (hx : (chainRound rules verbose operand operator n c).result = .success x e) :
          RoundSucceeds rules verbose operand operator c x e :=
        (decides_chainRound operand operator n c).of_success x e hx
      obtain ⟨w, x, hrounds, h⟩ | ⟨ha, -⟩ :=
        (Run.foldWhile_eq_abort_iff ((advances_chainRound operand operator).at n)).1 h
      · have hrounds := hrounds.mono hround
        rcases h with h | ⟨⟨f, y⟩, z, e', hy, hf, ha⟩
        · rcases of_chainRound_eq_abort h with h | ⟨f, y, hf, h⟩
          · exact .inr ⟨⟨operator, x⟩, .inr ⟨v, d, w, x, ⟨n, hv⟩, hrounds, .inl rfl⟩, h⟩
          · exact .inr ⟨⟨operand, y⟩,
              .inr ⟨v, d, w, x, ⟨n, hv⟩, hrounds, .inr ⟨f, y, hf, rfl⟩⟩, h⟩
        · obtain rfl := Abort.fault.inj ha
          exact .inl ⟨v, d, w, x, ⟨n, hv⟩, hrounds, f, y, z, hround x _ z hy, hf⟩
      · cases ha
  | trace name shown p =>
    cases verbose with
    | false => exact .inr ⟨⟨p, c⟩, rfl, h⟩
    | true =>
      rcases Run.of_traced_eq_fault h with h | ⟨v, d, hv, hf⟩
      · exact .inr ⟨⟨p, c⟩, rfl, h⟩
      · exact .inl ⟨rfl, v, d, ⟨n, hv⟩, hf⟩
  | delay note p => exact .inr ⟨⟨p, c⟩, rfl, h⟩
  | ref r => exact .inr ⟨⟨rules _ r, c⟩, rfl, h⟩

/-- The induction follows the fault down the calls. -/
theorem exists_raises {n : Nat} {e : Fault} (T : Task ρ)
    (h : (T.parser.run rules verbose n T.cursor).result = .abort (.fault e)) :
    ∃ q, T.Runs rules verbose q ∧ q.parser.Raises rules verbose q.cursor e := by
  induction n generalizing T with
  | zero => cases h
  | succ n ih =>
    rcases of_run_eq_fault h with h | ⟨q, hq, h⟩
    · exact ⟨T, .refl, h⟩
    · obtain ⟨q', hq', hraises⟩ := ih q h
      exact ⟨q', .head hq hq', hraises⟩

/-! ### Faults go up -/

theorem Calls.aborts {p : Parser ρ α} {c : Cursor} {q : Task ρ} {a : Abort}
    (h : p.Calls rules verbose c q) (ha : q.parser.Aborts rules verbose q.cursor a) :
    p.Aborts rules verbose c a := by
  obtain ⟨hne, habort⟩ := ha
  refine ⟨hne, (comesTo_succ_iff (by simpa using hne)).2 ?_⟩
  obtain ⟨m, hm⟩ := (settled_run q.parser q.cursor).eventually habort (by simpa using hne)
  cases p with
  | anyChar | eof | pure | fail | throw => exact h.elim
  | bind p k =>
    refine ((settled_run p c).comesTo_andThen_abort_iff (fun v d => settled_run (k v) d) hne).2 ?_
    rcases h with rfl | ⟨v, d, hv, rfl⟩
    · exact .inl habort
    · exact .inr ⟨v, d, hv, habort⟩
  | tryMap f p =>
    obtain rfl := h
    exact ⟨m, by simp only [run, Recorded.map, hm m (Nat.le_refl m), Outcome.tryMap]⟩
  | filter accepts shown description p =>
    obtain rfl := h
    exact ⟨m, by simp only [run, Recorded.map, hm m (Nat.le_refl m), Outcome.filter]⟩
  | label description p =>
    obtain rfl := h
    exact ⟨m, by simp only [run, Recorded.map, hm m (Nat.le_refl m), Outcome.label]⟩
  | orElse p p' =>
    rcases h with rfl | ⟨hfails, rfl⟩
    · exact ⟨m, by simp only [run, Run.orElse, hm m (Nat.le_refl m)]⟩
    · obtain ⟨l, f, hl⟩ := hfails.eventually
      refine ⟨max m l, ?_⟩
      simp only [run, Run.orElse, hl _ (Nat.le_max_right m l), Recorded.after]
      exact hm _ (Nat.le_max_left m l)
  | anyOf k ps =>
    obtain ⟨i, hi, rfl⟩ := h
    have hfails (j : Fin k) : ∃ l, j < i → ∃ f, ∀ n, l ≤ n →
        ((ps j).run rules verbose n c).result = .failure f := by
      by_cases hj : j < i
      · obtain ⟨l, f, hl⟩ := (hi j hj).eventually
        exact ⟨l, fun _ => ⟨f, hl⟩⟩
      · exact ⟨0, fun h => absurd h hj⟩
    choose l hl using hfails
    refine ⟨max m (Finset.univ.sup l), Run.firstOf_eq_abort_iff.2 ⟨i, fun j hj => ?_, ?_⟩⟩
    · obtain ⟨f, hf⟩ := hl j hj
      exact ⟨f, hf _ (Nat.le_trans (Finset.le_sup (Finset.mem_univ j)) (Nat.le_max_right m _))⟩
    · exact hm _ (Nat.le_max_left m _)
  | many p =>
    obtain ⟨vs, d, hrounds, rfl⟩ := h
    exact (Run.comesTo_map_abort_iff List.reverse).2
      (Run.Settled.foldWhile_abort (settled_run p) (advances_succeeds p) hne hrounds habort)
  | chainLeft operand operator =>
    refine ((settled_run operand c).comesTo_andThen_abort_iff (settled_chain operand operator)
      hne).2 ?_
    rcases h with rfl | ⟨v, d, w, x, hv, hrounds, h⟩
    · exact .inl habort
    · refine .inr ⟨v, d, hv, Run.Settled.foldWhile_abort (settled_chainRound operand operator)
        (advances_chainRound operand operator) hne
        (hrounds.mono fun c v d => chainRound_success_iff.2) ((chainRound_abort_iff hne).2 ?_)⟩
      rcases h with rfl | ⟨f, y, hf, rfl⟩
      · exact .inl ⟨hne, habort⟩
      · exact .inr ⟨f, y, hf, hne, habort⟩
  | trace name shown p =>
    obtain rfl := h
    refine ⟨m, ?_⟩
    simp only [run]
    split
    · simp only [Run.traced, hm m (Nat.le_refl m), Run.tracedEnd, Recorded.after]
    · exact hm m (Nat.le_refl m)
  | delay note p =>
    obtain rfl := h
    exact ⟨m, hm m (Nat.le_refl m)⟩
  | ref r =>
    obtain rfl := h
    exact ⟨m, hm m (Nat.le_refl m)⟩

theorem Raises.aborts {p : Parser ρ α} {c : Cursor} {e : Fault}
    (h : p.Raises rules verbose c e) : p.Aborts rules verbose c (.fault e) := by
  refine ⟨by simp, (comesTo_succ_iff (o := .abort (.fault e)) (by simp)).2 ?_⟩
  cases p with
  | throw fault =>
    obtain rfl := h
    exact ⟨0, rfl⟩
  | tryMap f p =>
    obtain ⟨v, d, ⟨n, hn⟩, hf⟩ := h
    exact ⟨n, by simp only [run, Recorded.map, hn, Outcome.tryMap, hf]⟩
  | filter accepts shown description p =>
    obtain ⟨v, d, ⟨n, hn⟩, hf | ⟨hf, hs⟩⟩ := h
    · exact ⟨n, by simp only [run, Recorded.map, hn, Outcome.filter, hf]⟩
    · exact ⟨n, by simp only [run, Recorded.map, hn, Outcome.filter, hf, hs]⟩
  | chainLeft operand operator =>
    obtain ⟨v, d, w, x, hv, hrounds, f, y, z, hy, hf⟩ := h
    refine ((settled_run operand c).comesTo_andThen_abort_iff (settled_chain operand operator)
      (a := .fault e) (by simp)).2 (.inr ⟨v, d, hv, ?_⟩)
    exact Run.Settled.foldWhile_fault (settled_chainRound operand operator)
      (advances_chainRound operand operator) (hrounds.mono fun c v d => chainRound_success_iff.2)
      (chainRound_success_iff.2 hy) hf
  | trace name shown p =>
    obtain ⟨rfl, v, d, ⟨n, hn⟩, hs⟩ := h
    exact ⟨n, by simp only [run, if_true, Run.traced, hn, Run.tracedEnd, hs, Recorded.after]⟩
  | anyChar | eof | pure | fail | bind | label | orElse | anyOf | many | delay | ref =>
    exact h.elim

/-- A parse ends in a fault if and only if a callback raises it in a run that it comes to. -/
theorem aborts_fault_iff {p : Parser ρ α} {c : Cursor} {e : Fault} :
    p.Aborts rules verbose c (.fault e) ↔ ∃ q, Task.Runs rules verbose ⟨p, c⟩ q ∧
      q.parser.Raises rules verbose q.cursor e := by
  constructor
  · rintro ⟨-, n, hn⟩
    exact exists_raises ⟨p, c⟩ hn
  · rintro ⟨q, hruns, hraises⟩
    suffices ∀ T : Task ρ, T.Runs rules verbose q →
        T.parser.Aborts rules verbose T.cursor (.fault e) from this ⟨p, c⟩ hruns
    intro T hT
    induction hT using Relation.ReflTransGen.head_induction_on with
    | refl => exact hraises.aborts
    | head hcall _ ih => exact Calls.aborts hcall ih

/-! ### Parses whose callbacks return -/

theorem CallbacksReturn.run_abort {p : Parser ρ α} {c : Cursor} {n : Nat} {a : Abort}
    (h : p.CallbacksReturn rules verbose c) (ha : (p.run rules verbose n c).result = .abort a) :
    a = .tooDeep ∨ a = .endless := by
  cases a with
  | tooDeep => exact .inl rfl
  | endless => exact .inr rfl
  | fault e =>
    obtain ⟨q, hruns, hraises⟩ := exists_raises ⟨p, c⟩ ha
    exact absurd hraises (h q e hruns)

theorem CallbacksReturn.result {p : Parser ρ α} {c : Cursor} {r : Run α}
    (h : p.CallbacksReturn rules verbose c) (hr : p.Reaches rules verbose c r)
    (hends : r.result ≠ .abort .endless) :
    (∃ v d, r.result = .success v d) ∨ ∃ f, r.result = .failure f := by
  obtain ⟨hdeep, n, rfl⟩ := hr
  cases hres : (p.run rules verbose n c).result with
  | success v d => exact .inl ⟨v, d, rfl⟩
  | failure f => exact .inr ⟨f, rfl⟩
  | abort a =>
    rcases h.run_abort hres with rfl | rfl
    · exact absurd hres hdeep
    · exact absurd hres hends

theorem CallbacksReturn.eq_endless {p : Parser ρ α} {c : Cursor} {a : Abort}
    (h : p.CallbacksReturn rules verbose c)
    (ha : (p.parse rules verbose c).result = .abort a ∧ a.isNesting = false) : a = .endless := by
  rcases h.run_abort ha.1 with rfl | rfl
  · cases ha.2
  · rfl

namespace Guarded

variable {G : Guard ρ} {n N : Nat} {b : Bool} {p : Parser ρ α} {c : Cursor}

theorem faults_of_raises {e : Fault} (h : Guarded G n b p) (he : p.Raises G.rules G.verbose c e) :
    G.faults e := by
  cases n with
  | zero => exact h.elim
  | succ n =>
    cases p with
    | throw fault =>
      obtain rfl := he
      exact h
    | tryMap f p =>
      obtain ⟨v, d, hv, hf⟩ := he
      obtain ⟨s, hs, -⟩ := hv.took
      exact h.2 _ v s e hs hf
    | filter accepts shown description p =>
      obtain ⟨v, d, hv, hf⟩ := he
      obtain ⟨s, hs, -⟩ := hv.took
      exact h.2 _ v s e hs (hf.imp_right And.right)
    | chainLeft operand operator =>
      obtain ⟨_, _, w, x, -, -, f, y, _, ⟨_, hop, -⟩, hf⟩ := he
      obtain ⟨s, hs, -⟩ := hop.took
      exact h.2.2.2 _ f s w y e hs hf
    | trace name shown p =>
      obtain ⟨-, v, d, hv, hs⟩ := he
      obtain ⟨s, hv, -⟩ := hv.took
      exact h.2 _ v s e hv hs
    | anyChar | eof | pure | fail | bind | label | orElse | anyOf | many | delay | ref =>
      exact he.elim

theorem callbacksReturn (hrules : ∀ {α : Type} (r : ρ α), Guarded G N false (G.rules _ r))
    (hG : ∀ e, ¬ G.faults e) (h : Guarded G n b p) (c : Cursor) :
    p.CallbacksReturn G.rules G.verbose c := by
  intro q e hruns hraises
  obtain ⟨_, _, _, -, hq, -⟩ := h.runs hrules (T := ⟨p, c⟩) hruns
  exact hG e (hq.faults_of_raises hraises)

end Guarded

/-- A parse has no faults but those that its callbacks raise: it looks at a character only where
there is one, also beyond the end of the text. If its callbacks return, then it comes to a value or
a failure, unless it repeats itself for ever, and so does the reading of a whole text. -/
theorem faults_are_raised (rules : Rules ρ) (verbose : Bool) (p : Parser ρ α) :
    (∀ c e, p.Aborts rules verbose c (.fault e) ↔
      ∃ q, Task.Runs rules verbose ⟨p, c⟩ q ∧ q.parser.Raises rules verbose q.cursor e) ∧
    (∀ c, p.CallbacksReturn rules verbose c →
      (∀ n a, (p.run rules verbose n c).result = .abort a → a = .tooDeep ∨ a = .endless) ∧
      ∀ r, p.Reaches rules verbose c r → r.result ≠ .abort .endless →
        (∃ v d, r.result = .success v d) ∨ ∃ f, r.result = .failure f) ∧
    (∀ text name a, p.CallbacksReturn rules verbose (.start text name) →
      ((p.runText rules verbose text name).result = .error a → a = .endless) ∧
      ∀ consumeAll, (p.readText rules verbose text name consumeAll).result = .error (.abort a) →
        a = .endless) ∧
    ∀ c : Cursor, (¬ c.AtEnd → ∃ x d, c.current = .ok x ∧ c.advance = .ok d) ∧
      (∀ a, c.readChar ≠ .abort a) ∧ ∀ a, c.readEnd ≠ .abort a := by
  refine ⟨fun c e => aborts_fault_iff, fun c h => ⟨fun n a => h.run_abort, fun r => h.result⟩,
    fun text name a h => ⟨fun ha => h.eq_endless (runText_abort_iff.1 ha), fun consumeAll ha =>
      h.eq_endless ((readText_abort_iff consumeAll).1 ha)⟩, fun c => ?_⟩
  cases hu : c.unread with
  | nil =>
    have hend : c.AtEnd := c.atEnd_iff_unread_eq_nil.2 hu
    rw [Cursor.readChar_of_nil hu, Cursor.readEnd_of_nil hu]
    exact ⟨fun h => absurd hend h, by simp, by simp⟩
  | cons x t =>
    obtain ⟨hx, hd⟩ := c.current_of_unread hu
    rw [Cursor.readChar_of_cons hu, Cursor.readEnd_of_cons hu]
    exact ⟨fun _ => ⟨x, _, hx, hd⟩, by simp, by simp⟩

/-- A parser that starts beyond the end of a text, and reads it from the front. -/
theorem faults_are_raised_beyond_end :
    let rules : Rules fun _ => Empty := fun _ r => r.elim
    let p : Parser (fun _ => Empty) Unit := ((char 'a').keepRight (char 'b')).many.bind fun _ => eof
    let c : Cursor := ⟨#['a', 'b'], 7, ⟨1, 8, []⟩⟩
    let q : Parser (fun _ => Empty) CodePoint := p.bind fun _ => anyChar
    (∀ c, q.CallbacksReturn rules true c) ∧
      p.Reaches rules true c (.success () c) ∧
      (∃ r, q.Reaches rules true c r ∧ ((∃ v d, r.result = .success v d) ∨
        ∃ f, r.result = .failure f)) ∧
      (q.readText rules true "aba" [] true).result =
        .error (.failure ⟨⟨1, 3, []⟩, "Expected end of input, but got a"⟩) ∧
      ∀ a, (q.readText rules true "aba" [] true).result = .error (.abort a) → a = .endless := by
  intro rules p c q
  have hguarded : Guarded ⟨rules, true, fun _ => false, fun _ => False⟩ 6 false q :=
    .bind (.bind ⟨.keepRight (.char 'a') (.char 'b'), (Consumes.satisfy _ _).bind⟩
      fun _ _ _ _ => trivial) fun _ _ _ _ => trivial
  have hreturn : ∀ c, q.CallbacksReturn rules true c :=
    hguarded.callbacksReturn (N := 0) (fun r => r.elim) fun _ => id
  obtain ⟨-, hresult, htext, -⟩ := faults_are_raised rules true q
  have hreaches : q.Reaches rules true c (.failure ⟨⟨1, 8, []⟩, "Unexpected end of input"⟩) :=
    reaches_of_run (n := 7) (by simp) (by decide +kernel) (by decide +kernel)
  have hends : p.Reaches rules true c (.success () c) :=
    reaches_of_run (n := 6) (by simp) (by decide +kernel) (by decide +kernel)
  have hfails := (hresult c (hreturn c)).2 _ hreaches (by simp [Run.failure])
  exact ⟨hreturn, hends, ⟨_, hreaches, hfails⟩, by decide +kernel,
    fun a => (htext "aba" [] a (hreturn _)).2 true⟩

end Parser
end Descent
