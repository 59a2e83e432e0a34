import Descent.Parser

/-!
# Depth

More depth does not change a run that had enough of it (`run_of_le`). The meaning of a parser apart
from depth is therefore the one run that it has at all sufficient depths: `Reaches` relates a parser
and a cursor to that run, and `Reaches.unique` says that there is no other.
-/

namespace Descent

namespace Run

variable {α β : Type}

def TooDeep (r : Run α) : Prop := r.result = .abort .tooDeep

instance : DecidablePred (TooDeep (α := α))
  | ⟨.abort a, _⟩ => decidable_of_iff (a = .tooDeep) ⟨congrArg _, Outcome.abort.inj⟩
  | ⟨.success _ _, _⟩ => .isFalse (by simp [TooDeep])
  | ⟨.failure _, _⟩ => .isFalse (by simp [TooDeep])

theorem andThen_congr {r r' : Run α} {k k' : α → Cursor → Run β} (hr : ¬ r.TooDeep → r' = r)
    (hk : ∀ v c, ¬ (k v c).TooDeep → k' v c = k v c) (h : ¬ (r.andThen k).TooDeep) :
    r'.andThen k' = r.andThen k := by
  have hr' : r' = r := hr fun e => h (by
    show (r.andThen k).result = _
    rw [andThen, show r.result = _ from e])
  rw [hr']
  unfold andThen
  split
  · next v c hv => rw [hk v c fun e => h (by unfold andThen; rw [hv]; exact e)]
  · rfl
  · rfl

theorem orElse_congr {r r' : Run α} {q q' : Unit → Run α} (hr : ¬ r.TooDeep → r' = r)
    (hq : ¬ (q ()).TooDeep → q' () = q ()) (h : ¬ (r.orElse q).TooDeep) :
    r'.orElse q' = r.orElse q := by
  have hr' : r' = r := hr fun e => h (by
    show (r.orElse q).result = _
    rw [orElse, show r.result = _ from e]
    exact e)
  rw [hr']
  unfold orElse
  split
  · next f hf => rw [hq fun e => h (by unfold orElse; rw [hf]; exact e)]
  · rfl

theorem firstOf_congr {n : Nat} {attempt attempt' : Fin n → Unit → Run α} {last : Failure}
    (ha : ∀ i, ¬ (attempt i ()).TooDeep → attempt' i () = attempt i ())
    (h : ¬ (firstOf last (.ofFn attempt)).TooDeep) :
    firstOf last (.ofFn attempt') = firstOf last (.ofFn attempt) := by
  induction n generalizing last with
  | zero => rfl
  | succ n ih =>
    rw [List.ofFn_succ] at h ⊢
    rw [List.ofFn_succ]
    have h0 : attempt' 0 () = attempt 0 () := ha 0 fun e => h (by
      show (firstOf last _).result = _
      simp only [firstOf, show (attempt 0 ()).result = _ from e])
    simp only [firstOf, h0]
    split
    · next f hf =>
      rw [ih (fun i => ha i.succ) fun e => h (by simp only [TooDeep, firstOf, hf]; exact e)]
    · rfl

theorem map_congr {r r' : Run α} {f : Outcome α → Outcome β}
    (hf : f (.abort .tooDeep) = .abort .tooDeep) (hr : ¬ r.TooDeep → r' = r)
    (h : ¬ Run.TooDeep (r.map f)) : r'.map f = r.map f := by
  rw [hr fun e => h ((congrArg f e).trans hf)]

theorem foldWhile_congr {step step' : Cursor → Run β} {combine : α → β → Except Fault α}
    (hs : ∀ c, ¬ (step c).TooDeep → step' c = step c) {acc : α} {c : Cursor}
    (h : ¬ (foldWhile step combine acc c).TooDeep) :
    foldWhile step' combine acc c = foldWhile step combine acc c := by
  induction hn : c.unreadCount using Nat.strongRecOn generalizing acc c with
  | _ n ih =>
    have hc : step' c = step c := hs c fun e => h (by
      rw [foldWhile_eq, show (step c).result = _ from e]; rfl)
    rw [foldWhile_eq] at h
    rw [foldWhile_eq, foldWhile_eq step, hc]
    split
    · rfl
    · rfl
    · next v d hv =>
      split
      · rfl
      · next acc' hacc =>
        split
        · next hd =>
          simp only [hv, hacc, hd, if_true] at h
          rw [ih _ (hn ▸ hd) h rfl]
        · rfl

end Run

namespace Parser

variable {ρ : Type → Type} {α : Type} {rules : Rules ρ} {verbose : Bool}

/-- More depth changes no run that had enough. -/
theorem run_of_le {n m : Nat} (hnm : n ≤ m) {p : Parser ρ α} {c : Cursor}
    (h : ¬ (p.run rules verbose n c).TooDeep) :
    p.run rules verbose m c = p.run rules verbose n c := by
  induction n generalizing m α c with
  | zero => exact absurd rfl h
  | succ n ih =>
    obtain ⟨m, rfl⟩ : ∃ k, m = k + 1 := ⟨m - 1, by omega⟩
    have hle : n ≤ m := by omega
    cases p with
    | anyChar | eof | pure | fail | throw => rfl
    | bind p k => exact Run.andThen_congr (ih hle) (fun v d => ih hle) h
    | tryMap f p => exact Run.map_congr rfl (ih hle) h
    | filter accepts shown description p => exact Run.map_congr rfl (ih hle) h
    | label description p => exact Run.map_congr rfl (ih hle) h
    | orElse p q => exact Run.orElse_congr (ih hle) (ih hle) h
    | anyOf k ps => exact Run.firstOf_congr (fun i => ih hle) h
    | many p =>
      exact Run.map_congr rfl (Run.foldWhile_congr fun d => ih hle) h
    | chainLeft operand operator =>
      refine Run.andThen_congr (ih hle) (fun v d => Run.foldWhile_congr fun d => ?_) h
      refine Run.andThen_congr (ih hle) fun f e => ?_
      exact Run.map_congr rfl (ih hle)
    | trace name shown p =>
      simp only [run] at h ⊢
      cases verbose with
      | false => exact ih hle h
      | true =>
        have hp : ¬ (run rules true n p c).TooDeep := fun e => h (by
          show (if true = true then _ else _ : Run _).result = _
          rw [if_pos rfl, Run.traced, show (run rules true n p c).result = _ from e]
          rfl)
        simp only [if_true, ih hle hp]
    | delay note p =>
      have hp : ¬ (run rules verbose n p c).TooDeep := h
      simp only [run, ih hle hp]
    | ref r => exact ih hle h

/-- The run of a parser at a cursor when there is depth enough. -/
def Reaches (rules : Rules ρ) (verbose : Bool) (p : Parser ρ α) (c : Cursor) (r : Run α) : Prop :=
  ¬ r.TooDeep ∧ ∃ n, p.run rules verbose n c = r

theorem Reaches.unique {p : Parser ρ α} {c : Cursor} {r r' : Run α}
    (h : Reaches rules verbose p c r) (h' : Reaches rules verbose p c r') : r = r' := by
  obtain ⟨hr, n, hn⟩ := h
  obtain ⟨hr', n', hn'⟩ := h'
  rcases Nat.le_total n n' with hle | hle
  · rw [← hn, ← hn', run_of_le hle (by rwa [hn])]
  · rw [← hn, ← hn', run_of_le hle (by rwa [hn'])]

end Parser
end Descent
