import Descent.Proofs.Json.NumberLiteral
import Descent.Proofs.Json.StringLiteral

/-!
# What the JSON grammar reads

Every text that `Grammar.element` takes is in the language, with the value that is returned. By
induction on the length of the text: nested values stand behind an opening bracket.
-/

namespace Descent
namespace Json

open Descent.Parser

variable {ρ : Type → Type} {rules : Rules ρ} {verbose : Bool} {self : ρ Json} {t : Text}

/-- The kinds of values, in the order in which they are tried. -/
def alternatives (self : ρ Json) : List (Parser ρ Json) :=
  [Grammar.nullLiteral, Grammar.boolLiteral, Grammar.stringLiteral.map .string,
    Grammar.numberLiteral.map .number, (Grammar.array self).map .array,
    (Grammar.object self).map .object]

/-- A list in brackets, the part that arrays and objects have in common. -/
theorem bracketed_reads {α : Type} {p : Parser ρ α} {L : Text → α → Prop}
    (opening closing : CodePoint)
    (hp : Nested (p.Reads rules verbose L) t) :
    (between (char opening) (char closing)
      ((p.sepBySome (char ',')).orElse (whitespaces.map fun _ => []))).Reads rules verbose
        (Bracketed L opening closing) t := by
  refine (Reads.char opening t).between
    (L := fun s vs => Bracketed L opening closing (opening :: (s ++ [closing])) vs) ?_
    (fun _ u _ => Reads.char closing u) ?_
  · rintro _ _ u rfl ⟨rfl, -⟩
    have hitems : (p.sepBySome (char ',')).Reads rules verbose (SepBy L ',') u := by
      refine Reads.sepBySome ',' fun s x hu => hp (opening :: s) x ?_ (List.cons_ne_nil _ _)
      rw [hu]; rfl
    exact (hitems.mono fun s vs h => .items h).orElse
      ((Reads.whitespaces u).map fun s _ h => .blank h)
  · rintro _ _ s vs _ _ ⟨rfl, -⟩ h ⟨rfl, -⟩
    exact h

section
variable (hself : Nested ((Parser.ref self).Reads rules verbose IsElement) t)
include hself

theorem member_reads : (Grammar.member self).Reads rules verbose IsMember t := by
  have hkey : (between whitespaces whitespaces Grammar.stringLiteral).Reads (ρ := ρ) rules verbose
      (fun s v => ∃ w₁ k w₂, s = w₁ ++ (k ++ w₂) ∧ AreBlank w₁ ∧ IsString k v ∧ AreBlank w₂) t := by
    refine (Reads.whitespaces t).between (fun _ _ u _ _ => stringLiteral_reads u)
      (fun _ u _ => Reads.whitespaces u) ?_
    intro w₁ _ k v w₂ _ hw₁ hk hw₂
    exact ⟨w₁, k, w₂, rfl, hw₁, hk, hw₂⟩
  refine hkey.bind ?_
  rintro _ key u ht ⟨w₁, k, w₂, rfl, hw₁, hk, hw₂⟩
  refine (Reads.char ':' u).keepRight ?_
  rintro _ _ x hu ⟨rfl, -⟩
  refine (hself (w₁ ++ (k ++ w₂) ++ [(':' : CodePoint)]) x ?_ (by simp)).map ?_
  · rw [ht, hu]; simp
  · intro s v h
    exact .intro hw₁ hk hw₂ h

theorem array_reads :
    (Grammar.array self).Reads rules verbose (Bracketed IsElement '[' ']') t :=
  bracketed_reads '[' ']' hself

theorem object_reads :
    (Grammar.object self).Reads rules verbose
      (fun s d => ∃ es, Bracketed IsMember '{' '}' s es ∧ Dictionary.Collects es d) t := by
  have hmember : Nested ((Grammar.member self).Reads rules verbose IsMember) t := by
    intro s u ht hs
    subst ht
    exact member_reads hself.right
  refine (bracketed_reads '{' '}' hmember).map ?_
  intro s es h
  exact ⟨es, h, Dictionary.collects_ofEntries es⟩

theorem alternatives_read (hruns : DigitRunsWithin Numeral.digitLimit t) :
    ∀ p ∈ alternatives self, p.Reads rules verbose IsValue t := by
  simp only [alternatives, List.forall_mem_cons]
  refine ⟨(Reads.string "null" t).map ?_, Reads.orElse ((Reads.string "true" t).map ?_)
    ((Reads.string "false" t).map ?_), (stringLiteral_reads t).map ?_,
    (numberLiteral_reads hruns).map ?_, (array_reads hself).map ?_, (object_reads hself).map ?_,
    nofun⟩
  · rintro _ _ ⟨rfl, -⟩; exact .null
  · rintro _ _ ⟨rfl, -⟩; exact .true
  · rintro _ _ ⟨rfl, -⟩; exact .false
  · intro s x h; exact .string h
  · intro s n h; exact .number h
  · intro s vs h; exact .array h
  · rintro s d ⟨es, h, hd⟩; exact .object h hd

theorem value_reads (hruns : DigitRunsWithin Numeral.digitLimit t) :
    (Grammar.value self).Reads rules verbose IsValue t :=
  Reads.firstOf (List.cons_ne_nil _ _) (alternatives_read hself hruns)

end

theorem element_reads (hself : rules _ self = Grammar.element self)
    (hruns : DigitRunsWithin Numeral.digitLimit t) :
    (Grammar.element self).Reads rules verbose IsElement t := by
  induction t using Nested.induction with
  | _ t ih =>
    have hnested : Nested ((Parser.ref self).Reads rules verbose IsElement) t := by
      intro s u ht hs
      subst ht
      exact .ref (hself ▸ ih s u rfl hs hruns.right)
    refine (Reads.whitespaces t).between (fun w₁ _ u ht hw₁ => ?_)
      (fun s u _ => Reads.whitespaces u) fun w₁ _ s v w₂ _ hw₁ hv hw₂ => .intro hw₁ hv hw₂
    subst ht
    exact value_reads hnested.right hruns.right

end Json
end Descent
