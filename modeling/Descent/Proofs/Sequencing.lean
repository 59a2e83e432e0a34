import Descent.Parser.Reading
import Descent.Proofs.Agreement

/-!
# Laws of sequences

Parsers are a monad up to agreement, with all that they record: `pure` is neutral and `bind` is
associative, also for parsers that fail, fault or are delayed, and for continuations that fault.
The operations on parsers that keep one value or both are what their readings in terms of `bind`
and `pure` say (`Parser.sequencing_laws`). Chains of `keepRight` or of `keepLeft` do the same in
whatever way they are bracketed: the parts run in order, and the value of the last or of the first
one is kept (`Parser.Bracketing`).
-/

namespace Descent
namespace Parser

variable {ρ : Type → Type} {rules : Rules ρ} {verbose : Bool} {α β γ δ : Type}

/-- What a callback returns, or its fault. -/
def ofExcept : Except Fault α → Parser ρ α
  | .ok v => .pure v
  | .error e => .throw e

theorem matches_ofExcept (f : α → Except Fault β) (v : α) (c : Cursor) :
    Run.Matches ((ofExcept (ρ := ρ) (f v)).run rules verbose · c)
      fun _ => ⟨(Outcome.success v c).tryMap f, []⟩ := by
  simp only [Outcome.tryMap]
  cases f v with
  | ok w => exact matches_succ _ c
  | error e => exact matches_succ _ c

namespace Agree

/-! ### Monad laws -/

theorem pure_bind (v : α) (k : α → Parser ρ β) :
    Agree rules verbose ((Parser.pure v).bind k) (k v) := by
  intro c
  rw [agreeAt_iff_matches]
  exact (matches_bind _ k c).trans ((matches_pure v c).andThen fun w d _ => matches_refl (k w) d)

theorem bind_pure (p : Parser ρ α) : Agree rules verbose (p.bind .pure) p := by
  intro c
  rw [agreeAt_iff_matches]
  have h : Run.Matches ((p.bind .pure).run rules verbose · c) _ :=
    (matches_bind p .pure c).trans ((matches_refl p c).andThen fun v d _ => matches_pure v d)
  simp only [Run.andThen_success] at h
  exact h

theorem bind_assoc (p : Parser ρ α) (k : α → Parser ρ β) (l : β → Parser ρ γ) :
    Agree rules verbose ((p.bind k).bind l) (p.bind fun v => (k v).bind l) := by
  intro c
  rw [agreeAt_iff_matches]
  have hleft : Run.Matches (((p.bind k).bind l).run rules verbose · c) _ :=
    (matches_bind (p.bind k) l c).trans
      ((matches_bind p k c).andThen fun w e _ => matches_refl (l w) e)
  have hright : Run.Matches ((p.bind fun v => (k v).bind l).run rules verbose · c) _ :=
    (matches_bind p (fun v => (k v).bind l) c).trans
      ((matches_refl p c).andThen fun v d _ => matches_bind (k v) l d)
  simp only [Run.andThen_assoc] at hleft
  exact hleft.trans hright.symm

theorem tryMap_eq_bind (f : α → Except Fault β) (p : Parser ρ α) :
    Agree rules verbose (p.tryMap f) (p.bind fun v => ofExcept (f v)) := by
  intro c
  rw [agreeAt_iff_matches]
  have hright : Run.Matches ((p.bind fun v => ofExcept (f v)).run rules verbose · c) _ :=
    (matches_bind p (fun v => ofExcept (f v)) c).trans
      ((matches_refl p c).andThen fun v d _ => matches_ofExcept f v d)
  simp only [← Run.map_tryMap_eq_andThen] at hright
  exact (matches_tryMap f p c).trans hright.symm

theorem map_eq_bind (f : α → β) (p : Parser ρ α) :
    Agree rules verbose (p.map f) (p.bind fun v => .pure (f v)) := tryMap_eq_bind _ p

/-- What is done with a value can be left to the continuation. -/
theorem map_bind (f : α → β) (p : Parser ρ α) (k : β → Parser ρ γ) :
    Agree rules verbose ((p.map f).bind k) (p.bind fun v => k (f v)) :=
  ((map_eq_bind f p).bind fun w => .refl (k w)).trans
    ((bind_assoc p _ k).trans ((Agree.refl p).bind fun v => pure_bind (f v) k))

end Agree

/-! ### Chains -/

/-- Parsers in a chain with brackets, of which the first gives an `α` and the last a `β`. -/
inductive Bracketing (ρ : Type → Type) : Type → Type → Type 1 where
  | one {α : Type} (p : Parser ρ α) : Bracketing ρ α α
  | join {α β γ δ : Type} (s : Bracketing ρ α β) (t : Bracketing ρ γ δ) : Bracketing ρ α δ

namespace Bracketing

/-- The parsers of a chain, in order. -/
def parts : {α β : Type} → Bracketing ρ α β → List ((γ : Type) × Parser ρ γ)
  | _, _, one p => [⟨_, p⟩]
  | _, _, join s t => s.parts ++ t.parts

def keepLast : {α β : Type} → Bracketing ρ α β → Parser ρ β
  | _, _, one p => p
  | _, _, join s t => s.keepLast.keepRight t.keepLast

def keepFirst : {α β : Type} → Bracketing ρ α β → Parser ρ α
  | _, _, one p => p
  | _, _, join s t => s.keepFirst.keepLeft t.keepFirst

def first : {α β : Type} → Bracketing ρ α β → Parser ρ α
  | _, _, one p => p
  | _, _, join s _ => s.first

def last : {α β : Type} → Bracketing ρ α β → Parser ρ β
  | _, _, one p => p
  | _, _, join _ t => t.last

/-- All parts but the first. -/
def rest : {α β : Type} → Bracketing ρ α β → List ((γ : Type) × Parser ρ γ)
  | _, _, one _ => []
  | _, _, join s t => s.rest ++ t.parts

/-- All parts but the last. -/
def front : {α β : Type} → Bracketing ρ α β → List ((γ : Type) × Parser ρ γ)
  | _, _, one _ => []
  | _, _, join s t => s.parts ++ t.front

theorem parts_eq_first_cons (s : Bracketing ρ α β) : s.parts = ⟨α, s.first⟩ :: s.rest := by
  induction s with
  | one p => rfl
  | join s t ihs iht => simp only [parts, rest, first, ihs, List.cons_append]

theorem parts_eq_front_append (s : Bracketing ρ α β) : s.parts = s.front ++ [⟨β, s.last⟩] := by
  induction s with
  | one p => rfl
  | join s t ihs iht => simp only [parts, front, last, iht, List.append_assoc]

/-- Runs parsers in order for what they consume, and then `p`. -/
def skipping (qs : List ((γ : Type) × Parser ρ γ)) (p : Parser ρ α) : Parser ρ α :=
  qs.foldr (fun q p => q.2.keepRight p) p

theorem skipping_append (qs rs : List ((γ : Type) × Parser ρ γ)) (p : Parser ρ α) :
    skipping (qs ++ rs) p = skipping qs (skipping rs p) := List.foldr_append

theorem skipping_agree (qs : List ((γ : Type) × Parser ρ γ)) {p p' : Parser ρ α}
    (h : Agree rules verbose p p') : Agree rules verbose (skipping qs p) (skipping qs p') := by
  induction qs with
  | nil => exact h
  | cons q qs ih => exact (Agree.refl q.2).bind fun _ => ih

/-- The induction is over what follows the chain as well, so that brackets can be moved to it. -/
theorem keepLast_bind (s : Bracketing ρ α β) (k : β → Parser ρ γ) :
    Agree rules verbose (s.keepLast.bind k) (skipping s.front (s.last.bind k)) := by
  induction s generalizing γ with
  | one p => exact .refl _
  | join s t ihs iht =>
    have hassoc : Agree rules verbose ((s.keepLast.keepRight t.keepLast).bind k)
        (s.keepLast.bind fun _ => t.keepLast.bind k) := .bind_assoc _ _ k
    have hfront : Agree rules verbose (s.keepLast.bind fun _ => t.keepLast.bind k)
        (skipping s.front (s.last.bind fun _ => skipping t.front (t.last.bind k))) :=
      (ihs _).trans (skipping_agree _ ((Agree.refl s.last).bind fun _ => iht k))
    rw [keepLast, front, last, parts_eq_front_append, List.append_assoc, skipping_append]
    exact hassoc.trans hfront

theorem keepFirst_bind (s : Bracketing ρ α β) (k : α → Parser ρ γ) :
    Agree rules verbose (s.keepFirst.bind k) (s.first.bind fun v => skipping s.rest (k v)) := by
  induction s generalizing γ with
  | one p => exact .refl _
  | join s t ihs iht =>
    have hassoc : Agree rules verbose ((s.keepFirst.keepLeft t.keepFirst).bind k)
        (s.keepFirst.bind fun v => t.keepFirst.bind fun _ => k v) :=
      (Agree.bind_assoc _ _ k).trans
        ((Agree.refl s.keepFirst).bind fun v => .map_bind _ t.keepFirst k)
    have hrest : Agree rules verbose (s.keepFirst.bind fun v => t.keepFirst.bind fun _ => k v)
        (s.first.bind fun v => skipping s.rest (t.first.bind fun _ => skipping t.rest (k v))) :=
      ((Agree.refl s.keepFirst).bind fun v => iht fun _ => k v).trans (ihs _)
    rw [keepFirst, rest, first, parts_eq_first_cons]
    simp only [skipping_append]
    exact hassoc.trans hrest

/-- Neither kind of chain depends on its brackets. -/
theorem agree_of_parts_eq {s t : Bracketing ρ α β} (h : s.parts = t.parts) :
    Agree rules verbose s.keepLast t.keepLast ∧ Agree rules verbose s.keepFirst t.keepFirst := by
  have hfirst := h
  rw [parts_eq_first_cons, parts_eq_first_cons, List.cons.injEq] at hfirst
  obtain ⟨hp, hrest⟩ := hfirst
  rw [parts_eq_front_append, parts_eq_front_append] at h
  obtain ⟨hfront, hlast⟩ := List.append_inj' h rfl
  have hlast : s.last = t.last := by simpa using hlast
  have hp : s.first = t.first := by simpa using hp
  have hlasts (u : Bracketing ρ α β) :
      Agree rules verbose u.keepLast (skipping u.front (u.last.bind .pure)) :=
    (Agree.bind_pure u.keepLast).symm.trans (u.keepLast_bind .pure)
  have hfirsts (u : Bracketing ρ α β) :
      Agree rules verbose u.keepFirst (u.first.bind fun v => skipping u.rest (.pure v)) :=
    (Agree.bind_pure u.keepFirst).symm.trans (u.keepFirst_bind .pure)
  constructor
  · refine (hlasts s).trans ?_
    rw [hfront, hlast]
    exact (hlasts t).symm
  · refine (hfirsts s).trans ?_
    rw [hrest, hp]
    exact (hfirsts t).symm

end Bracketing

/-- The laws of a monad, and what the other sequences are in terms of it. Agreement is about
outcomes and about all that is recorded: the log and the delayed parsers, in order. -/
theorem sequencing_laws (rules : Rules ρ) (verbose : Bool) :
    (∀ {α β : Type} (v : α) (f : α → Parser ρ β), Agree rules verbose ((pure v).bind f) (f v)) ∧
    (∀ {α : Type} (m : Parser ρ α), Agree rules verbose (m.bind pure) m) ∧
    (∀ {α β γ : Type} (m : Parser ρ α) (f : α → Parser ρ β) (g : β → Parser ρ γ),
      Agree rules verbose ((m.bind f).bind g) (m.bind fun x => (f x).bind g)) ∧
    (∀ {α β : Type} (m : Parser ρ α) (h : α → Except Fault β),
      Agree rules verbose (m.tryMap h) (m.bind fun x => ofExcept (h x))) ∧
    (∀ {α β : Type} (m : Parser ρ α) (h : α → β),
      Agree rules verbose (m.map h) (m.bind fun x => pure (h x))) ∧
    (∀ {α β : Type} (m : Parser ρ α) (pf : Parser ρ (α → Except Fault β)),
      Agree rules verbose (m.apply pf) (pf.bind fun h => m.bind fun x => ofExcept (h x))) ∧
    (∀ {α β : Type} (a : Parser ρ α) (b : Parser ρ β),
      Agree rules verbose (a.both b) (do let x ← a; let y ← b; return (x, y)) ∧
      Agree rules verbose (a.keepRight b) (do let _ ← a; b) ∧
      Agree rules verbose (a.keepLeft b) (do let x ← a; let _ ← b; return x)) ∧
    (∀ {α β γ : Type} (o : Parser ρ β) (c : Parser ρ γ) (p : Parser ρ α),
      Agree rules verbose (between o c p) (do let _ ← o; let x ← p; let _ ← c; return x)) ∧
    (∀ {α β : Type} (s t : Bracketing ρ α β), s.parts = t.parts →
      Agree rules verbose s.keepLast t.keepLast ∧ Agree rules verbose s.keepFirst t.keepFirst) := by
  refine ⟨.pure_bind, .bind_pure, .bind_assoc, fun m h => .tryMap_eq_bind h m,
    fun m h => .map_eq_bind h m, fun m pf => ?_, fun a b => ⟨?_, .refl _, ?_⟩, fun o c p => .refl _,
    fun s t => Bracketing.agree_of_parts_eq⟩
  · exact (Agree.refl pf).bind fun h => .tryMap_eq_bind h m
  · exact (Agree.refl a).bind fun x => .map_eq_bind _ b
  · exact (Agree.refl a).bind fun x => .map_eq_bind _ b

/-- Three parsers, bracketed in both ways. -/
theorem sequencing_laws_three :
    let rules : Rules fun _ => Empty := fun _ r => r.elim
    let a : Bracketing (fun _ => Empty) CodePoint CodePoint := .one (delay "first" (char '1'))
    let b : Bracketing (fun _ => Empty) Text Text := .one (char '+').many
    let d : Bracketing (fun _ => Empty) CodePoint CodePoint := .one (delay "last" anyChar)
    let s : Bracketing (fun _ => Empty) CodePoint CodePoint := (a.join b).join d
    let t : Bracketing (fun _ => Empty) CodePoint CodePoint := a.join (b.join d)
    let c : Cursor := .start "1++2" []
    let ends (x : CodePoint) : Run CodePoint :=
      ⟨.success x ⟨c.text, 4, ⟨1, 5, []⟩⟩, [.built "first", .built "last"]⟩
    s.parts = t.parts ∧
      s.keepLast.Reaches rules true c (ends '2') ∧ t.keepLast.Reaches rules true c (ends '2') ∧
      s.keepFirst.Reaches rules true c (ends '1') ∧
      t.keepFirst.Reaches rules true c (ends '1') := by
  intro rules a b d s t c ends
  obtain ⟨-, -, -, -, -, -, -, -, hchains⟩ := sequencing_laws rules true
  obtain ⟨hlast, hfirst⟩ := hchains s t rfl
  have hs : s.keepLast.Reaches rules true c (ends '2') :=
    reaches_of_run (n := 8) (by simp) (by decide +kernel) (by decide +kernel)
  have hs' : s.keepFirst.Reaches rules true c (ends '1') :=
    reaches_of_run (n := 8) (by simp) (by decide +kernel) (by decide +kernel)
  exact ⟨rfl, hs, (hlast c _).1 hs, hs', (hfirst c _).1 hs'⟩

end Parser
end Descent
