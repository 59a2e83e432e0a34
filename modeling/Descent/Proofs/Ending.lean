import Descent.Parser.Depth
import Descent.Proofs.Translation

/-!
# Runs that end

A run ends if it comes to a value or a failure, or to a fault from a given set, and neither exhausts
its depth nor repeats itself for ever. Each operation on runs has a rule for it below; a repetition
ends because every round that succeeds takes something.
-/

namespace Descent

/-- A value, a failure, or a fault of `S`. -/
def Outcome.Ends {α : Type} (S : Fault → Prop) (o : Outcome α) : Prop :=
  ∀ a, o = .abort a → ∃ e, a = .fault e ∧ S e

namespace Outcome.Ends

variable {α β : Type} {S : Fault → Prop} {o : Outcome α}

theorem success (v : α) (d : Cursor) : (Outcome.success v d).Ends S := nofun

theorem failure (f : Failure) : (Outcome.failure (α := α) f).Ends S := nofun

theorem fault {e : Fault} (he : S e) : (Outcome.abort (α := α) (.fault e)).Ends S :=
  fun _ ha => ⟨e, (Outcome.abort.inj ha).symm, he⟩

theorem readChar (c : Cursor) : c.readChar.Ends S := by
  cases hu : c.unread with
  | nil => rw [Cursor.readChar_of_nil hu]; exact failure _
  | cons x t => rw [Cursor.readChar_of_cons hu]; exact success x _

theorem readEnd (c : Cursor) : c.readEnd.Ends S := by
  cases hu : c.unread with
  | nil => rw [Cursor.readEnd_of_nil hu]; exact success () c
  | cons x t => rw [Cursor.readEnd_of_cons hu]; exact failure _

/-- An abort is the same at any type of values. -/
theorem abort {a : Abort} (h : (Outcome.abort (α := α) a).Ends S) :
    (Outcome.abort (α := β) a).Ends S :=
  fun _ hb => h _ (congrArg _ (Outcome.abort.inj hb))

theorem tryMap {f : α → Except Fault β} (h : o.Ends S)
    (hf : ∀ v d e, o = .success v d → f v = .error e → S e) : (o.tryMap f).Ends S := by
  cases o with
  | success v d =>
    cases hv : f v with
    | ok w => simpa only [Outcome.tryMap, hv] using success w d
    | error e => simpa only [Outcome.tryMap, hv] using fault (hf v d e rfl hv)
  | failure f => exact failure f
  | abort a => exact h.abort

theorem filter {accepts : α → Except Fault Bool} {shown : α → Except Fault Text}
    {description : Text} {start : Position} (h : o.Ends S)
    (hf : ∀ v d e, o = .success v d → accepts v = .error e ∨ shown v = .error e → S e) :
    (o.filter accepts shown description start).Ends S := by
  cases o with
  | success v d =>
    rcases hv : accepts v with e | _ | _
    · simpa only [Outcome.filter, hv] using fault (hf v d e rfl (.inl hv))
    · cases hs : shown v with
      | ok t => simpa only [Outcome.filter, hv, hs] using failure _
      | error e => simpa only [Outcome.filter, hv, hs] using fault (hf v d e rfl (.inr hs))
    · simpa only [Outcome.filter, hv] using success v d
  | failure f => exact failure _
  | abort a => exact h

theorem label {description : Text} {start : Position} (h : o.Ends S) :
    (o.label description start).Ends S := by
  cases o with
  | failure f => exact failure _
  | success | abort => exact h

end Outcome.Ends

namespace Run

variable {α β : Type} {S : Fault → Prop}

abbrev Ends (S : Fault → Prop) (r : Run α) : Prop := r.result.Ends S

namespace Ends

variable {r : Run α}

theorem not_tooDeep (h : Ends S r) : ¬ r.TooDeep := fun hr => by
  obtain ⟨e, he, -⟩ := h _ hr
  exact nomatch he

theorem andThen {k : α → Cursor → Run β} (hr : Ends S r)
    (hk : ∀ v d, r.result = .success v d → Ends S (k v d)) : Ends S (r.andThen k) := by
  unfold Run.andThen
  split
  · next v d hv => exact hk v d hv
  · exact .failure _
  · next a ha =>
    rw [Ends, ha] at hr
    exact hr.abort

theorem orElse {q : Unit → Run α} (hr : Ends S r) (hq : Ends S (q ())) : Ends S (r.orElse q) := by
  unfold Run.orElse
  split
  · exact hq
  · exact hr

theorem firstOf {attempts : List (Unit → Run α)} {last : Failure}
    (h : ∀ attempt ∈ attempts, Ends S (attempt ())) : Ends S (Run.firstOf last attempts) := by
  induction attempts generalizing last with
  | nil => exact .failure last
  | cons attempt attempts ih =>
    obtain ⟨hfirst, hrest⟩ := List.forall_mem_cons.1 h
    simp only [Run.firstOf]
    split
    · exact ih hrest
    · exact hfirst

theorem traced {name : Text} {shown : α → Except Fault Text} {start : Position} (hr : Ends S r)
    (hs : ∀ v d e, r.result = .success v d → shown v = .error e → S e) :
    Ends S (r.traced name shown start) := by
  show (Run.tracedEnd name shown r.result).result.Ends S
  cases hres : r.result with
  | success v d =>
    cases hv : shown v with
    | ok t => simpa only [Run.tracedEnd, hv] using Outcome.Ends.success v d
    | error e => simpa only [Run.tracedEnd, hv] using Outcome.Ends.fault (hs v d e hres hv)
  | failure f => exact .failure f
  | abort a =>
    rw [Ends, hres] at hr
    exact hr

/-- A repetition ends if its rounds do and every round that succeeds takes something. `P` is what
is known of the cursors that rounds start at. -/
theorem foldWhile {step : Cursor → Run β} {combine : α → β → Except Fault α} {P : Cursor → Prop}
    (hstep : ∀ c, P c → Ends S (step c))
    (hround : ∀ c v d, P c → (step c).result = .success v d →
      P d ∧ d.unreadCount < c.unreadCount ∧ ∀ acc e, combine acc v = .error e → S e)
    {acc : α} {c : Cursor} (hc : P c) : Ends S (Run.foldWhile step combine acc c) := by
  induction hn : c.unreadCount using Nat.strongRecOn generalizing acc c with
  | _ n ih =>
    have hends := hstep c hc
    rw [foldWhile_eq]
    cases hres : (step c).result with
    | failure f => exact .success acc c
    | abort a =>
      rw [Ends, hres] at hends
      exact hends.abort
    | success v d =>
      obtain ⟨hd, hlt, hf⟩ := hround c v d hc hres
      cases hv : combine acc v with
      | error e =>
        simp only [hv]
        exact .fault (hf acc e hv)
      | ok acc' =>
        simp only [hv, hlt, if_true]
        exact ih _ (hn ▸ hlt) hd rfl

end Ends
end Run

end Descent
