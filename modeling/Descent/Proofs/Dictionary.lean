import Descent.Dictionary
import Mathlib.Data.List.Induction

/-!
# Dictionaries of repeated keys

A dictionary collects entries if every key stands where it came first and has the value that came
last. `Dictionary.ofEntries` is the one dictionary that does.
-/

namespace Descent
namespace Dictionary

variable {α : Type} {entries : List (Text × α)} {d d' : Dictionary α}

/-- The keys of the entries in the order of their first places, each with its last value. -/
structure Collects (entries : List (Text × α)) (d : Dictionary α) : Prop where
  keys : d.map (·.1) = (entries.map (·.1)).eraseDups
  values : ∀ key, d.lookup key = entries.reverse.lookup key

theorem lookup_cons_eq_ite (e : Text × α) (d : Dictionary α) (key : Text) :
    List.lookup key (e :: d) = if key = e.1 then some e.2 else d.lookup key := by
  rw [List.lookup_cons]
  by_cases h : key = e.1
  · rw [if_pos h, beq_iff_eq.2 h]
  · rw [if_neg h, beq_eq_false_iff_ne.2 h]

theorem lookup_insert (d : Dictionary α) (key key' : Text) (value : α) :
    (d.insert key value).lookup key' = if key' = key then some value else d.lookup key' := by
  induction d with
  | nil => exact lookup_cons_eq_ite (key, value) [] key'
  | cons e d ih =>
    rw [insert]
    by_cases hk : e.1 = key
    · rw [if_pos hk, lookup_cons_eq_ite, lookup_cons_eq_ite, hk]
      by_cases h : key' = key <;> simp [h]
    · rw [if_neg hk, lookup_cons_eq_ite, lookup_cons_eq_ite, ih]
      by_cases h : key' = e.1
      · simp [h, hk]
      · simp [h]

/-- Distinct keys and their values make up a dictionary. -/
theorem eq_of_lookup (hd : (d.map (·.1)).Nodup) (hkeys : d'.map (·.1) = d.map (·.1))
    (hvalues : ∀ key, d'.lookup key = d.lookup key) : d' = d := by
  induction d generalizing d' with
  | nil => simpa using hkeys
  | cons e d ih =>
    cases d' with
    | nil => simp at hkeys
    | cons e' d' =>
      obtain ⟨hfst, hkeys⟩ := List.cons.inj hkeys
      obtain ⟨he, hd⟩ := List.nodup_cons.1 hd
      simp only [lookup_cons_eq_ite, hfst] at hvalues
      have hsnd : e'.2 = e.2 := by simpa using hvalues e.1
      have hnone {l : Dictionary α} (hl : l.map (·.1) = d.map (·.1)) : l.lookup e.1 = none := by
        refine List.lookup_eq_none_iff.2 fun p hp => bne_iff_ne.2 fun heq => he ?_
        rw [← hl]
        exact List.mem_map.2 ⟨p, hp, heq.symm⟩
      rw [Prod.ext hfst hsnd, ih hd hkeys fun key => ?_]
      by_cases h : key = e.1
      · rw [h, hnone hkeys, hnone rfl]
      · simpa [h] using hvalues key

theorem ofEntries_append_singleton (entries : List (Text × α)) (e : Text × α) :
    ofEntries (entries ++ [e]) = (ofEntries entries).insert e.1 e.2 :=
  List.foldl_append

theorem collects_ofEntries (entries : List (Text × α)) : Collects entries (ofEntries entries) := by
  induction entries using List.reverseRecOn with
  | nil => exact ⟨rfl, fun _ => rfl⟩
  | append_singleton entries e ih =>
    rw [ofEntries_append_singleton]
    constructor
    · rw [keys_insert, ih.keys, List.map_append, List.eraseDups_append]
      by_cases h : e.1 ∈ entries.map (·.1)
      · simp [List.mem_eraseDups, h, List.removeAll]
      · simp [List.mem_eraseDups, h, List.removeAll, List.eraseDups_cons]
    · intro key
      rw [lookup_insert, ih.values, List.reverse_append]
      exact (lookup_cons_eq_ite e entries.reverse key).symm

theorem insert_of_not_mem {key : Text} (h : key ∉ d.map (·.1)) (value : α) :
    d.insert key value = d ++ [(key, value)] := by
  induction d with
  | nil => rfl
  | cons e d ih =>
    rw [List.map_cons, List.mem_cons, not_or] at h
    rw [insert, if_neg (Ne.symm h.1), ih h.2, List.cons_append]

/-- Entries with distinct keys are a dictionary as they are. -/
theorem ofEntries_of_nodup (h : (entries.map (·.1)).Nodup) : ofEntries entries = entries := by
  induction entries using List.reverseRecOn with
  | nil => rfl
  | append_singleton entries e ih =>
    rw [List.map_append, List.nodup_append] at h
    obtain ⟨hentries, -, hdisjoint⟩ := h
    have he : e.1 ∉ entries.map (·.1) := fun hmem =>
      hdisjoint e.1 hmem e.1 (List.mem_singleton_self e.1) rfl
    rw [ofEntries_append_singleton, ih hentries, insert_of_not_mem he]

theorem collects_iff : Collects entries d ↔ d = ofEntries entries := by
  have hof := collects_ofEntries entries
  refine ⟨fun h => ?_, ?_⟩
  · exact eq_of_lookup (nodup_keys_ofEntries entries) (h.keys.trans hof.keys.symm)
      fun key => (h.values key).trans (hof.values key).symm
  · rintro rfl; exact hof

end Dictionary
end Descent
