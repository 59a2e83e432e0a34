import Descent.Run

/-!
# Rounds that take nothing

A round that takes nothing is followed by the same round, so `Run.foldWhile` does not run it again,
and only looks for the round in which its value cannot be combined (`Run.faultAfter`). That makes no
difference: behind a round that succeeds a repetition goes on with the next one, whatever the round
took (`Run.foldWhile_round`).
-/

namespace Descent

namespace Run

variable {α β : Type} {combine : α → β → Except Fault α} {v : β} {acc acc' : α} {n m : Nat}
  {e : Fault}

theorem faultAfter_of_error (h : combine acc v = .error e) :
    faultAfter combine v n acc = some (n, e) :=
  faultAfter_eq_some_iff.mpr (.now h)

theorem faultAfter_of_ok (h : combine acc v = .ok acc') :
    faultAfter combine v n acc = faultAfter combine v (n + 1) acc' := by
  ext ⟨m, e⟩
  rw [faultAfter_eq_some_iff, faultAfter_eq_some_iff, faultsAt_of_ok h]

/-- The time of the fault is counted from any number. -/
theorem faultsAt_add_iff (l : Nat) : FaultsAt combine v (n + l) acc m e ↔
    ∃ k, FaultsAt combine v n acc k e ∧ k + l = m := by
  constructor
  · generalize hs : n + l = s
    intro h
    induction h generalizing n with
    | now he => exact ⟨n, .now he, hs⟩
    | later hacc _ ih =>
      obtain ⟨k, hk, rfl⟩ := ih (n := n + 1) (by omega)
      exact ⟨k, .later hacc hk, rfl⟩
  · rintro ⟨k, h, rfl⟩
    induction h with
    | now he => exact .now he
    | later hacc _ ih => exact .later hacc (Nat.add_right_comm .. ▸ ih)

theorem faultAfter_add (l : Nat) : faultAfter combine v (n + l) acc =
    (faultAfter combine v n acc).map fun (m, e) => (m + l, e) := by
  ext ⟨m, e⟩
  rw [faultAfter_eq_some_iff, faultsAt_add_iff]
  simp [faultAfter_eq_some_iff]

theorem faultAfter_eq_none (h : ∀ acc, ∃ acc', combine acc v = .ok acc') :
    faultAfter combine v n acc = none := by
  rw [Option.eq_none_iff_forall_ne_some]
  rintro ⟨m, e⟩ hsome
  rw [faultAfter_eq_some_iff] at hsome
  induction hsome with
  | @now _ acc _ he =>
    obtain ⟨acc', hacc⟩ := h acc
    cases he.symm.trans hacc
  | later _ _ ih => exact ih

variable {step : Cursor → Run β} {c d : Cursor}

/-- Behind a round that succeeds a repetition goes on, also if the round took nothing. If it never
ends, then its events are told up to the first round that took nothing. -/
theorem foldWhile_round (hd : d.unreadCount < c.unreadCount ∨ d = c)
    (hv : (step c).result = .success v d) (hacc : combine acc v = .ok acc') :
    (foldWhile step combine acc c).result = (foldWhile step combine acc' d).result ∧
      ((foldWhile step combine acc' d).result ≠ .abort .endless →
        foldWhile step combine acc c = (foldWhile step combine acc' d).after (step c).events) := by
  rcases hd with hd | rfl
  · rw [foldWhile_eq step combine acc]
    simp [hv, hacc, hd, Recorded.after]
  · rw [foldWhile_eq, foldWhile_eq step combine acc']
    simp only [hv, hacc, Nat.lt_irrefl, if_false]
    cases hacc' : combine acc' v with
    | error e => simp [faultAfter_of_error hacc', stalled, Recorded.after]
    | ok acc'' =>
      rw [faultAfter_of_ok hacc', faultAfter_add (n := 1) 1]
      dsimp only
      cases faultAfter combine v 1 acc'' with
      | some r => simp [stalled, Recorded.after, List.replicate_succ]
      | none => simp [stalled, abort, Recorded.after]

/-- A round that takes nothing is repeated up to the fault that its value leads to. -/
theorem foldWhile_of_stays (hv : (step c).result = .success v c)
    (h : FaultsAt combine v 1 acc n e) :
    foldWhile step combine acc c =
      ⟨.abort (.fault e), (List.replicate n (step c).events).flatten⟩ := by
  rw [foldWhile_eq]
  cases h with
  | now he => simp [hv, he]
  | later hacc h =>
    obtain ⟨k, hk, rfl⟩ := (faultsAt_add_iff (n := 1) 1).mp h
    rw [← faultAfter_eq_some_iff] at hk
    simp [hv, hacc, hk, stalled, Recorded.after, List.replicate_succ]

end Run
end Descent
