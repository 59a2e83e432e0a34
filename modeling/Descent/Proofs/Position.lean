import Descent.Position
import Mathlib.Logic.ExistsUnique

/-!
# The order of positions

Reading moves a position strictly forward in the order of lines and columns, so the positions behind
the prefixes of a text all differ (`updateAll_inj`). `line_updateAll` and `column_updateAll` count
line feeds and columns.
-/

namespace Descent
namespace Position

/-- Reading order: on an earlier line, or further left on the same one. -/
def Before (p q : Position) : Prop :=
  p.line < q.line ∨ p.line = q.line ∧ p.column < q.column

variable {p q r : Position}

theorem Before.ne (h : p.Before q) : p ≠ q := by
  rintro rfl
  rcases h with h | ⟨-, h⟩
  · exact Int.lt_irrefl _ h
  · exact Int.lt_irrefl _ h

theorem Before.trans (h : p.Before q) (h' : q.Before r) : p.Before r := by
  unfold Before at *; omega

theorem before_update (p : Position) (c : CodePoint) : p.Before (p.update c) := by
  unfold update
  split
  · exact .inl (by show p.line < p.line + 1; omega)
  · exact .inr ⟨rfl, by show p.column < p.column + 1; omega⟩

theorem before_updateAll (p : Position) {s : Text} (hs : s ≠ []) : p.Before (p.updateAll s) := by
  induction s generalizing p with
  | nil => exact absurd rfl hs
  | cons c s ih =>
    rw [updateAll_cons]
    by_cases h : s = []
    · subst h; exact before_update p c
    · exact (before_update p c).trans (ih _ h)

theorem updateAll_eq_self_iff {s : Text} : p.updateAll s = p ↔ s = [] := by
  constructor
  · intro h
    by_cases hs : s = []
    · exact hs
    · exact absurd h.symm (before_updateAll p hs).ne
  · rintro rfl; rfl

/-- The positions behind the prefixes of one text are all different. -/
theorem updateAll_inj {s s' t : Text} (hs : s <+: t) (hs' : s' <+: t)
    (h : p.updateAll s = p.updateAll s') : s = s' := by
  have key : ∀ a b : Text, a <+: b → p.updateAll a = p.updateAll b → a = b := by
    rintro a _ ⟨u, rfl⟩ hp
    rw [updateAll_append, eq_comm, updateAll_eq_self_iff] at hp
    rw [hp, List.append_nil]
  rcases List.prefix_or_prefix_of_prefix hs hs' with hss | hss
  · exact key _ _ hss h
  · exact (key _ _ hss h.symm).symm

/-! ### Lines and columns -/

theorem updateAll_append_singleton (p : Position) (s : Text) (c : CodePoint) :
    p.updateAll (s ++ [c]) = (p.updateAll s).update c := by
  rw [updateAll_append]; rfl

@[simp] theorem name_updateAll (p : Position) (s : Text) : (p.updateAll s).name = p.name := by
  induction s generalizing p with
  | nil => rfl
  | cons c s ih => rw [updateAll_cons, ih, name_update]

theorem line_updateAll (p : Position) (s : Text) :
    (p.updateAll s).line = p.line + s.count ('\n' : CodePoint) := by
  induction s generalizing p with
  | nil => simp
  | cons c s ih =>
    rw [updateAll_cons, ih, update]
    by_cases h : c = '\n'
    · simp only [h, if_true, List.count_cons_self]; omega
    · simp only [h, if_false, List.count_cons_of_ne h]

/-- Behind a line feed the column counts the characters after the last one. -/
theorem column_updateAll (p : Position) (s : Text) :
    (p.updateAll s).column =
      if ('\n' : CodePoint) ∈ s then 1 + ((s.reverse.takeWhile fun c : CodePoint => c ≠ '\n').length : Int)
      else p.column + s.length := by
  generalize hr : s.reverse = r
  obtain rfl : s = r.reverse := by rw [← hr, List.reverse_reverse]
  clear hr
  induction r with
  | nil => simp
  | cons c r ih =>
    rw [List.reverse_cons, updateAll_append_singleton, update]
    by_cases h : c = '\n'
    · simp [h]
    · have h' : ¬ ('\n' : CodePoint) = c := fun e => h e.symm
      simp only [h, if_false, ih, List.mem_append, List.mem_singleton, h', or_false, ne_eq,
        not_false_eq_true, decide_true, List.takeWhile_cons_of_pos, List.length_cons,
        List.length_append, List.length_nil]
      split <;> omega

end Position
end Descent
