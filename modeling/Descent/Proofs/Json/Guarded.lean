import Descent.Proofs.Guarded
import Descent.Proofs.Json.NumberLiteral

/-!
# The JSON grammar is guarded

Nested values stand behind an opening bracket or brace, every repetition consumes, and the one
conversion that may fault is that of an integer with too many digits.
-/

namespace Descent
namespace Json

open Descent.Parser

variable {ρ : Type → Type} {G : Guard ρ} {b : Bool}

/-! ### Strings -/

theorem guarded_hexQuad : Guarded G 6 b (Grammar.hexQuad (ρ := ρ)) := by
  have hdigit {n : Nat} : Guarded G (n + 2) b (hexDigit (ρ := ρ)) :=
    (Guarded.satisfy _ _).deeper (Nat.le_add_left 2 n)
  exact hdigit.bind fun _ _ _ _ => hdigit.bind fun _ _ _ _ => hdigit.bind fun _ _ _ _ =>
    hdigit.map _

theorem guarded_pairWith (unit : CodePoint) : Guarded G 10 b (Grammar.pairWith (ρ := ρ) unit) := by
  have hescape : Guarded G 7 b ((Parser.string (ρ := ρ) "\\u").keepRight Grammar.hexQuad) :=
    ((Guarded.string "\\u").deeper (by decide)).keepRight guarded_hexQuad
  unfold Grammar.pairWith
  split
  · refine ⟨Guarded.map _ ⟨hescape, fun _ _ _ _ _ he => ?_⟩, trivial⟩
    exact he.elim nofun nofun
  · trivial

theorem guarded_escapedChar : Guarded G 14 b (Grammar.escapedChar (ρ := ρ)) := by
  have hunicode : Guarded G 12 b (Grammar.unicodeEscape (ρ := ρ)) :=
    ((Guarded.char 'u').deeper (by decide)).keepRight
      ((guarded_hexQuad.deeper (by decide)).bind fun _ unit _ _ => guarded_pairWith unit)
  have hsimple : Guarded G 4 b (Grammar.simpleEscape (ρ := ρ)) := by
    refine Guarded.firstOf fun p hp => ?_
    obtain ⟨⟨letter, c⟩, -, rfl⟩ := List.mem_map.1 hp
    exact (Guarded.char letter).map _
  exact ((Guarded.char '\\').deeper (by decide)).keepRight ⟨hunicode, hsimple.deeper (by decide)⟩

theorem guarded_stringLiteral : Guarded G 18 b (Grammar.stringLiteral (ρ := ρ)) := by
  have hunit : Guarded G 15 b (Grammar.validChar.orElse Grammar.escapedChar : Parser ρ CodePoint) :=
    ⟨(Guarded.satisfy _ _).deeper (by decide), guarded_escapedChar⟩
  have hunits : Guarded G 16 b
      (Grammar.validChar.orElse Grammar.escapedChar : Parser ρ CodePoint).many :=
    ⟨hunit, (Consumes.satisfy _ _).orElse (Consumes.satisfy _ _).bind⟩
  exact Guarded.between ((Guarded.char '"').deeper (by decide)) hunits
    ((Guarded.char '"').deeper (by decide))

/-! ### Numbers -/

theorem guarded_integerPart : Guarded G 6 b (Grammar.integerPart (ρ := ρ)) := by
  have hdigit : Guarded G 2 b (digit (ρ := ρ)) := .satisfy _ _
  have hnonZero : Guarded G 3 b (Grammar.nonZero (ρ := ρ)) :=
    ⟨hdigit, fun _ _ _ _ _ he => he.elim nofun nofun⟩
  have hdigits : Guarded G 3 b (digit (ρ := ρ)).many := ⟨hdigit, .satisfy _ _⟩
  exact ⟨((Guarded.char '0').map _).deeper (by decide),
    (hnonZero.deeper (by decide)).bind fun _ _ _ _ => hdigits.map _⟩

theorem guarded_fraction : Guarded G 7 b (Grammar.fraction (ρ := ρ)) :=
  ((Guarded.char '.').deeper (by decide)).keepRight (Guarded.digits.map _)

theorem guarded_exponent : Guarded G 8 b (Grammar.exponent (ρ := ρ)) := by
  have hsign : Guarded G 4 b (exponentSign (ρ := ρ)) := by
    refine Guarded.firstOf ?_
    simp only [List.forall_mem_cons]
    exact ⟨(Guarded.char '+').map _, (Guarded.char '-').map _, trivial, nofun⟩
  have hmark : Guarded G 3 b ((char 'e').orElse (char 'E') : Parser ρ CodePoint) :=
    ⟨.char 'e', .char 'E'⟩
  exact (hmark.deeper (by decide)).keepRight
    ((hsign.deeper (by decide)).bind fun _ _ _ _ => Guarded.digits.map _)

variable {rules : Rules ρ} {verbose : Bool} {t s v : Text}

theorem minusSign_took (h : (minusSign (ρ := ρ)).Answers rules verbose t (.took v s)) :
    v = s ∧ ∃ negative, IsMinus s negative := by
  obtain ⟨sg, negative, u, -, hsg, hsign⟩ := minusSign_total rules verbose t
  cases hsign.unique h
  exact ⟨rfl, negative, hsg⟩

theorem fraction_took
    (h : (option [] (Grammar.fraction (ρ := ρ))).Answers rules verbose t (.took v s)) :
    v = s ∧ ∃ fs, IsFraction s fs := by
  obtain ⟨r, rs, hfraction, hr, -⟩ := fraction_takes rules verbose .none t
  cases hfraction.unique h
  exact ⟨rfl, rs, hr⟩

theorem exponent_took
    (h : (option [] (Grammar.exponent (ρ := ρ))).Answers rules verbose t (.took v s)) :
    v = lowered s ∧ ∃ x, IsExponent s x := by
  obtain ⟨r, x, hexponent, hr, -⟩ := exponent_takes rules verbose .none t
  cases hexponent.unique h
  exact ⟨rfl, x, hr⟩

theorem guarded_numberLiteral (hfaults : G.faults .numeralTooLong) :
    Guarded G 13 b (Grammar.numberLiteral (ρ := ρ)) := by
  have hsign : Guarded G 4 b (minusSign (ρ := ρ)) := ((Guarded.char '-').map _).option []
  refine (hsign.deeper (by decide)).bind fun _ sg _ hsg => ?_
  refine (guarded_integerPart.deeper (by decide)).bind fun t ds _ hds => ?_
  refine ((guarded_fraction.option []).deeper (by decide)).bind fun _ f _ hf => ?_
  refine ⟨guarded_exponent.option [], fun _ e _ fault he hfault => ?_⟩
  obtain ⟨rfl, negative, hsign⟩ := minusSign_took hsg
  obtain ⟨rfl, hinteger⟩ := (integerPart_reads t).sound hds
  obtain ⟨rfl, fs, hfraction⟩ := fraction_took hf
  obtain ⟨rfl, x, hexponent⟩ := exponent_took he
  rw [numberOf_error hsign hinteger hfraction hexponent hfault]
  exact hfaults

/-! ### Nested values -/

/-- A list in brackets whose items may refer to the rules. -/
theorem guarded_bracketed {α : Type} {n : Nat} {p : Parser ρ α} {opening : CodePoint}
    (closing : CodePoint) (hopen : G.opens opening = true) (hn : 2 ≤ n) (hp : Guarded G n true p) :
    Guarded G (n + 7) b (between (char opening) (char closing)
      ((p.sepBySome (char ',')).orElse (whitespaces.map fun _ => []))) := by
  have hchar {b : Bool} {m : Nat} (x : CodePoint) (hm : 2 ≤ m) :
      Guarded G m b (char (ρ := ρ) x) := (Guarded.char x).deeper hm
  have hitems : Guarded G (n + 4) true (p.sepBySome (char ',')) :=
    hp.sepBySome (hchar ',' hn) (.satisfy _ _)
  have hblank : Guarded G (n + 4) true (whitespaces.map fun _ => [] : Parser ρ (List α)) :=
    (Guarded.whitespaces.map _).deeper (Nat.le_add_left 4 n)
  refine Guarded.between_open (n := n + 4) (hchar opening (by omega)) (fun t v s h => ?_)
    ⟨hitems, hblank⟩ (hchar closing (by omega))
  obtain ⟨rfl, -⟩ := (Reads.char opening t).sound h
  simp [hopen]

section
variable (hopens : G.opens '[' = true ∧ G.opens '{' = true) (self : ρ Json)
include hopens

theorem guarded_array : Guarded G 9 b (Grammar.array self) :=
  guarded_bracketed ']' hopens.1 (Nat.le_refl 2) rfl

theorem guarded_object : Guarded G 29 b (Grammar.object self) := by
  have hkey :
      Guarded G 20 true (between whitespaces whitespaces (Grammar.stringLiteral (ρ := ρ))) :=
    Guarded.between (Guarded.whitespaces.deeper (by decide)) guarded_stringLiteral
      (Guarded.whitespaces.deeper (by decide))
  have href : Guarded G 18 true (Parser.ref self) := rfl
  have hmember : Guarded G 21 true (Grammar.member self) :=
    hkey.bind fun _ _ _ _ => ((Guarded.char ':').deeper (by decide)).keepRight (href.map _)
  exact (guarded_bracketed '}' hopens.2 (by decide) hmember).map _

theorem guarded_element (hfaults : G.faults .numeralTooLong) :
    Guarded G 33 false (Grammar.element self) := by
  have hnull : Guarded G 10 false (Grammar.nullLiteral (ρ := ρ)) := (Guarded.string "null").map _
  have hbool : Guarded G 13 false (Grammar.boolLiteral (ρ := ρ)) :=
    ⟨((Guarded.string "true").map _).deeper (by decide), (Guarded.string "false").map _⟩
  have hvalue : Guarded G 31 false (Grammar.value self) := by
    refine Guarded.firstOf ?_
    simp only [List.forall_mem_cons]
    exact ⟨hnull.deeper (by decide), hbool.deeper (by decide),
      (guarded_stringLiteral.map _).deeper (by decide),
      ((guarded_numberLiteral hfaults).map _).deeper (by decide),
      ((guarded_array hopens self).map _).deeper (by decide), (guarded_object hopens self).map _,
      nofun⟩
  exact Guarded.between (Guarded.whitespaces.deeper (by decide)) hvalue
    (Guarded.whitespaces.deeper (by decide))

end

end Json
end Descent
