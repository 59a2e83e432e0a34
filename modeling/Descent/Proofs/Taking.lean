import Descent.Proofs.Recognition
import Descent.Proofs.Rounds

/-!
# What successes take

`p.Takes rules verbose L n`: what a run of `p` of depth `n` takes off a text is a word of the
language `L`, if the run succeeds. Unlike `Reads` this says nothing of when it does, so that it
holds on every text, also on those where a callback of `p` faults.
-/

namespace Descent

namespace Run

variable {α : Type} {v : α} {c d : Cursor}

theorem of_firstOf_eq_success {attempts : List (Unit → Run α)} {last : Failure}
    (h : (firstOf last attempts).result = .success v d) :
    ∃ attempt ∈ attempts, (attempt ()).result = .success v d := by
  induction attempts generalizing last with
  | nil => cases h
  | cons attempt attempts ih =>
    simp only [firstOf] at h
    split at h
    · obtain ⟨a, ha, hv⟩ := ih h
      exact ⟨a, List.mem_cons_of_mem _ ha, hv⟩
    · exact ⟨attempt, List.mem_cons_self, h⟩

end Run

namespace Parser

variable {ρ : Type → Type} {rules : Rules ρ} {verbose : Bool} {α β γ : Type}

def Takes (rules : Rules ρ) (verbose : Bool) (L : Text → α → Prop) (n : Nat) (p : Parser ρ α) :
    Prop :=
  ∀ c v d, (p.run rules verbose n c).result = .success v d → ∃ s, c.Leads s d ∧ L s v

theorem Reads.takes {L : Text → α → Prop} {p : Parser ρ α}
    (h : ∀ t, p.Reads rules verbose L t) (n : Nat) : p.Takes rules verbose L n := by
  intro c v d hv
  obtain ⟨s, hs, hlead⟩ := Succeeds.took ⟨n, hv⟩
  exact ⟨s, hlead, (h c.unread).sound hs⟩

namespace Takes

variable {L M : Text → α → Prop} {N : Text → β → Prop} {p : Parser ρ α} {n : Nat}

theorem zero (L : Text → α → Prop) (p : Parser ρ α) : p.Takes rules verbose L 0 := by
  intro c v d h
  cases h

theorem of_le {m : Nat} (hnm : n ≤ m) (h : p.Takes rules verbose L m) :
    p.Takes rules verbose L n := by
  intro c v d hv
  refine h c v d ?_
  rwa [run_of_le hnm fun hdeep => nomatch hv.symm.trans hdeep]

theorem mono (hLM : ∀ s v, L s v → M s v) (h : p.Takes rules verbose L n) :
    p.Takes rules verbose M n := by
  intro c v d hv
  obtain ⟨s, hs, hL⟩ := h c v d hv
  exact ⟨s, hs, hLM s v hL⟩

theorem pure {v : α} (hv : L [] v) : (Parser.pure (ρ := ρ) v).Takes rules verbose L n := by
  intro c w d h
  cases n with
  | zero => cases h
  | succ n =>
    cases h
    exact ⟨[], .refl c, hv⟩

/-- The language of what follows may depend on the word and the value before it. -/
theorem bind {k : α → Parser ρ β} (hp : p.Takes rules verbose L n)
    (hk : ∀ s v, L s v → (k v).Takes rules verbose (fun r w => N (s ++ r) w) n) :
    (p.bind k).Takes rules verbose N n := by
  intro c w e h
  cases n with
  | zero => cases h
  | succ n =>
    obtain ⟨v, d, hv, hw⟩ := Run.of_andThen_eq_success h
    obtain ⟨s, hs, hL⟩ := hp.of_le (Nat.le_succ n) c v d hv
    obtain ⟨r, hr, hN⟩ := (hk s v hL).of_le (Nat.le_succ n) d w e hw
    exact ⟨s ++ r, hs.trans hr, hN⟩

theorem tryMap {f : α → Except Fault β} (hp : p.Takes rules verbose L n)
    (hf : ∀ s v w, L s v → f v = .ok w → N s w) : (p.tryMap f).Takes rules verbose N n := by
  intro c w d h
  cases n with
  | zero => cases h
  | succ n =>
    obtain ⟨v, hv, hw⟩ := Outcome.of_tryMap_eq_success h
    obtain ⟨s, hs, hL⟩ := hp.of_le (Nat.le_succ n) c v d hv
    exact ⟨s, hs, hf s v w hL hw⟩

theorem map {f : α → β} (hp : p.Takes rules verbose L n) (hf : ∀ s v, L s v → N s (f v)) :
    (p.map f).Takes rules verbose N n := by
  refine hp.tryMap fun s v w hL hw => ?_
  obtain rfl := Except.ok.inj hw
  exact hf s v hL

theorem firstOf {ps : List (Parser ρ α)} (h : ∀ p ∈ ps, p.Takes rules verbose L n) :
    (Parser.firstOf ps).Takes rules verbose L n := by
  intro c v d hv
  cases n with
  | zero => cases hv
  | succ n =>
    obtain ⟨attempt, hmem, hv⟩ := Run.of_firstOf_eq_success hv
    obtain ⟨i, rfl⟩ := List.mem_ofFn.1 hmem
    exact (h ps[i] (List.getElem_mem i.isLt)).of_le (Nat.le_succ n) c v d hv

/-- The word between two others, in a language of its own. -/
theorem between {opening : Parser ρ β} {closing : Parser ρ γ} {K : Text → γ → Prop}
    (ho : opening.Takes rules verbose N n) (hp : p.Takes rules verbose L n)
    (hc : closing.Takes rules verbose K n)
    (hM : ∀ o x s v r y, N o x → L s v → K r y → M (o ++ (s ++ r)) v) :
    (Parser.between opening closing p).Takes rules verbose M n := by
  refine ho.bind fun o x hN => hp.bind fun s v hL => hc.bind fun r y hK => .pure ?_
  rw [List.append_nil]
  exact hM o x s v r y hN hL hK

section
variable {operator : Parser ρ (α → α → Except Fault α)}
  {K : Text → (α → α → Except Fault α) → Prop}
  (hM : ∀ s v r f u w x, M s v → K r f → L u w → f v w = .ok x → M (s ++ (r ++ u)) x)
  (hp : p.Takes rules verbose L n) (hoperator : operator.Takes rules verbose K n)
include hM hp hoperator

/-- The language `M` of what a chain has taken so far is kept by its rounds. -/
theorem rounds {c d e : Cursor} {s : Text} {acc v : α} (hs : c.Leads s d) (hacc : M s acc)
    (h : Run.Rounds (fun c w d => (chainRound rules verbose p operator n c).result = .success w d)
      (fun v (f, w) => f v w) acc d v e) : ∃ u, c.Leads u e ∧ M u v := by
  induction h generalizing s with
  | refl acc d => exact ⟨s, hs, hacc⟩
  | @head acc acc' _ d d' _ round hround hcombine _ ih =>
    obtain ⟨x, hf, hw⟩ := of_chainRound_eq_success hround
    obtain ⟨r, hr, hK⟩ := hoperator d round.1 x hf
    obtain ⟨u, hu, hL⟩ := hp x round.2 d' hw
    have hnext := hM s acc r round.1 u round.2 acc' hacc hK hL hcombine
    exact ih (hs.trans (hr.trans hu)) hnext

theorem chainLeft (hL : ∀ s v, L s v → M s v) :
    (p.chainLeft operator).Takes rules verbose M n := by
  intro c v e h
  cases n with
  | zero => cases h
  | succ n =>
    obtain ⟨acc, d, hacc, hfold⟩ := Run.of_andThen_eq_success h
    have hp' := hp.of_le (Nat.le_succ n)
    obtain ⟨s, hs, hLs⟩ := hp' c acc d hacc
    obtain ⟨hrounds, -⟩ := (Run.foldWhile_eq_success_iff <|
      (advances_roundSucceeds p operator).of_decides (decides_chainRound p operator n)).1 hfold
    exact rounds hM hp' (hoperator.of_le (Nat.le_succ n)) hs (hL s acc hLs) hrounds

end

/-- A reference takes what its rule takes, which has one unit of depth less. -/
theorem ref {r : ρ α} (h : (rules _ r).Takes rules verbose L n) :
    (Parser.ref r).Takes rules verbose L (n + 1) := h

end Takes
end Parser
end Descent
