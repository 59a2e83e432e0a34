import Descent.Text

/-!
# Dictionaries

A dictionary is a list of entries with distinct keys, in the order in which the keys were first
put in. Putting a key in again replaces its value and keeps its place.
-/

namespace Descent

abbrev Dictionary (α : Type) := List (Text × α)

namespace Dictionary

variable {α : Type}

def insert (d : Dictionary α) (key : Text) (value : α) : Dictionary α :=
  match d with
  | [] => [(key, value)]
  | (k, v) :: d => if k = key then (key, value) :: d else (k, v) :: insert d key value

/-- Puts entries in from left to right. -/
def ofEntries (entries : List (Text × α)) : Dictionary α :=
  entries.foldl (fun d e => d.insert e.1 e.2) []

theorem keys_insert (d : Dictionary α) (key : Text) (value : α) :
    (d.insert key value).map (·.1) =
      if key ∈ d.map (·.1) then d.map (·.1) else d.map (·.1) ++ [key] := by
  induction d with
  | nil => rfl
  | cons e d ih =>
    obtain ⟨k, v⟩ := e
    by_cases h : k = key
    · simp [insert, h]
    · have h' : ¬ key = k := fun e => h e.symm
      simp only [insert, h, if_false, List.map_cons, List.mem_cons, h', false_or, ih]
      split <;> simp

theorem nodup_keys_insert {d : Dictionary α} (h : (d.map (·.1)).Nodup) (key : Text) (value : α) :
    ((d.insert key value).map (·.1)).Nodup := by
  rw [keys_insert]
  split
  · exact h
  · next hk =>
    refine List.nodup_append.2 ⟨h, by simp, fun a ha b hb => ?_⟩
    rintro rfl
    rw [List.mem_singleton] at hb
    exact hk (hb ▸ ha)

theorem nodup_keys_ofEntries (entries : List (Text × α)) :
    ((ofEntries entries).map (·.1)).Nodup := by
  suffices ∀ d : Dictionary α, (d.map (·.1)).Nodup →
      ((entries.foldl (fun d e => d.insert e.1 e.2) d).map (·.1)).Nodup from this [] .nil
  induction entries with
  | nil => exact fun _ h => h
  | cons e es ih => exact fun d h => ih _ (nodup_keys_insert h _ _)

end Dictionary
end Descent
