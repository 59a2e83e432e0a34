import Descent.Json.Render
import Descent.Proofs.Json.NumberLiteral
import Descent.Proofs.Json.StringLiteral

/-!
# What is written is a literal

The digits of an integer are an integer literal of its value, and a rendered text is a string
literal of that text. The second needs a text in which no high surrogate is directly followed by a
low one (`Unpaired`): their escapes would be read as one character.
-/

namespace Descent

/-! ### Digits -/

theorem Numeral.toNat_append_singleton (ds : Text) (d : CodePoint) :
    toNat (ds ++ [d]) = 10 * toNat ds + (d.val - 48) := by
  simp [toNat, List.foldl_append]

namespace Text

/-- The character of a digit in the bases up to 16. -/
def digitChar (d : Nat) : CodePoint := .ofChar d.digitChar

theorem digitChar_of_lt {d : Nat} (h : d < 10) :
    (digitChar d).IsDigit ∧ (digitChar d).val - 48 = d ∧ (digitChar d = '0' ↔ d = 0) :=
  (by decide : ∀ d < 10, (digitChar d).IsDigit ∧ (digitChar d).val - 48 = d ∧
    (digitChar d = '0' ↔ d = 0)) d h

theorem ofNat_of_lt {n : Nat} (h : n < 10) : ofNat n = [digitChar n] := by
  rw [ofNat, Nat.toDigits_of_lt_base h]; rfl

theorem ofNat_of_le {n : Nat} (h : 10 ≤ n) :
    ofNat n = ofNat (n / 10) ++ [digitChar (n % 10)] := by
  rw [ofNat, Nat.toDigits_of_base_le (by decide) h, List.map_append]; rfl

theorem toNat_ofNat (n : Nat) : Numeral.toNat (ofNat n) = n := by
  induction n using Nat.strongRecOn with
  | _ n ih =>
    by_cases h : n < 10
    · rw [ofNat_of_lt h]
      simp [Numeral.toNat, (digitChar_of_lt h).2.1]
    · rw [ofNat_of_le (by omega), Numeral.toNat_append_singleton, ih (n / 10) (by omega),
        (digitChar_of_lt (by omega)).2.1]
      omega

/-- The digits of a positive number start with one that is not zero. -/
theorem exists_ofNat_eq_cons {n : Nat} (h : 0 < n) :
    ∃ d ds, ofNat n = d :: ds ∧ d.IsDigit ∧ d ≠ '0' ∧ Parser.AreDigits ds := by
  induction n using Nat.strongRecOn with
  | _ n ih =>
    by_cases hn : n < 10
    · obtain ⟨hd, -, hzero⟩ := digitChar_of_lt hn
      refine ⟨_, [], ofNat_of_lt hn, hd, ?_, nofun⟩
      rw [ne_eq, hzero]
      omega
    · obtain ⟨d, ds, heq, hd, hne, hds⟩ := ih (n / 10) (by omega) (by omega)
      refine ⟨d, ds ++ [digitChar (n % 10)], ?_, hd, hne, ?_⟩
      · rw [ofNat_of_le (by omega), heq, List.cons_append]
      · refine List.forall_mem_append.2 ⟨hds, List.forall_mem_singleton.2 ?_⟩
        exact (digitChar_of_lt (by omega)).1

/-- The last of several hexadecimal digits. -/
theorem ofHex_succ (k n : Nat) :
    ofHex (k + 2) n = ofHex (k + 1) (n / 16) ++ [digitChar (n % 16)] := by
  simp only [ofHex]
  by_cases h : n < 16
  · have hzero : n / 16 = 0 := by omega
    rw [Nat.toDigits_of_lt_base h, hzero, Nat.mod_eq_of_lt h, Nat.toDigits_zero]
    simp [digitChar, List.replicate_succ']
  · rw [Nat.toDigits_of_base_le (by decide) (by omega)]
    simp [digitChar]

theorem ofHex_one {n : Nat} (h : n < 16) : ofHex 1 n = [digitChar n] := by
  rw [ofHex, Nat.toDigits_of_lt_base h]; rfl

end Text

namespace Json

open Descent.Parser

variable {ρ : Type → Type} {rules : Rules ρ} {verbose : Bool}

/-! ### Integers -/

theorem isInteger_ofNat (n : Nat) : IsInteger (Text.ofNat n) := by
  cases n with
  | zero => exact .zero
  | succ n =>
    obtain ⟨d, ds, heq, hd, hne, hds⟩ := Text.exists_ofNat_eq_cons (Nat.succ_pos n)
    rw [heq]
    exact .nonZero hd hne hds

theorem numberLiteral_ofInt {i : Int} (h : (Text.ofNat i.natAbs).length ≤ Numeral.digitLimit)
    {u : Text} (hu : Stops goesOn u) :
    (Grammar.numberLiteral (ρ := ρ)).Answers rules verbose (Text.ofInt i ++ u)
      (.took (.int i) (Text.ofInt i)) := by
  have hliteral {sg : Text} {negative : Bool} (hsg : IsMinus sg negative) :
      (Grammar.numberLiteral (ρ := ρ)).Answers rules verbose _ _ :=
    numberLiteral_integer hsg (isInteger_ofNat i.natAbs) hu h
  rw [Text.toNat_ofNat] at hliteral
  cases i with
  | ofNat n => exact hliteral .none
  | negSucc n => exact hliteral .minus

/-! ### Strings -/

/-- No high surrogate is directly followed by a low one. -/
abbrev Unpaired (s : Text) : Prop :=
  List.IsChain (fun c d => ¬ (c.IsHighSurrogate ∧ d.IsLowSurrogate)) s

theorem digitChar_of_lt_sixteen {d : Nat} (h : d < 16) :
    (Text.digitChar d).IsHex ∧ (Text.digitChar d).hexValue.val = d :=
  (by decide : ∀ d < 16, (Text.digitChar d).IsHex ∧ (Text.digitChar d).hexValue.val = d) d h

/-- The unit that the escape of a UTF-16 unit spells. -/
def hexUnit (n : Nat) : StringUnit :=
  .unicode (Text.digitChar (n / 16 / 16 / 16)) (Text.digitChar (n / 16 / 16 % 16))
    (Text.digitChar (n / 16 % 16)) (Text.digitChar (n % 16))

section
variable {n : Nat} (h : n < 0x10000)
include h

theorem valid_hexUnit : (hexUnit n).Valid :=
  ⟨(digitChar_of_lt_sixteen (by omega)).1, (digitChar_of_lt_sixteen (by omega)).1,
    (digitChar_of_lt_sixteen (by omega)).1, (digitChar_of_lt_sixteen (by omega)).1⟩

theorem spell_hexUnit : (hexUnit n).spell = escapeUnit n := by
  rw [escapeUnit, Text.ofHex_succ, Text.ofHex_succ, Text.ofHex_succ, Text.ofHex_one (by omega)]
  rfl

theorem val_code_hexUnit : (hexUnit n).code.val = n := by
  show (CodePoint.ofHex _ _ _ _).val = n
  simp only [CodePoint.ofHex, (digitChar_of_lt_sixteen (Nat.mod_lt _ (by decide : 16 > 0))).2,
    (digitChar_of_lt_sixteen (show n / 16 / 16 / 16 < 16 by omega)).2]
  omega

end

/-- Every character with a letter of its own but the slash is written with it. -/
theorem escapeChar_of_mem :
    ∀ e ∈ Grammar.simpleEscapes, e.2 ≠ '/' → escapeChar e.2 = [('\\' : CodePoint), e.1] := by
  decide

/-- A character is written as one unit, or as two that pair. -/
theorem exists_units (c : CodePoint) :
    (∃ u : StringUnit, u.Valid ∧ u.spell = escapeChar c ∧ u.code = c) ∨
    ∃ u w : StringUnit, u.Valid ∧ w.Valid ∧ u.pairs w = true ∧
      u.spell ++ w.spell = escapeChar c ∧ .ofSurrogates u.code w.code = c := by
  by_cases hsimple : ∃ e ∈ Grammar.simpleEscapes, e.2 ≠ '/' ∧ e.2 = c
  · obtain ⟨⟨letter, c⟩, he, hne, rfl⟩ := hsimple
    exact .inl ⟨.escape letter c, he, (escapeChar_of_mem _ he hne).symm, rfl⟩
  have hother : ∀ e ∈ Grammar.simpleEscapes, e.2 ≠ '/' → ¬ c = e.2 :=
    fun e he hne heq => hsimple ⟨e, he, hne, heq.symm⟩
  have hquote : ¬ c = '"' := hother ('"', '"') (by decide) (by decide)
  have hback : ¬ c = '\\' := hother ('\\', '\\') (by decide) (by decide)
  rw [escapeChar, if_neg hquote, if_neg hback, if_neg (hother ('n', '\n') (by decide) (by decide)),
    if_neg (hother ('r', '\r') (by decide) (by decide)),
    if_neg (hother ('t', '\t') (by decide) (by decide)),
    if_neg (hother ('f', '\x0c') (by decide) (by decide)),
    if_neg (hother ('b', '\x08') (by decide) (by decide))]
  by_cases hplain : 0x20 ≤ c.val ∧ c.val < 0x7f
  · rw [if_pos hplain]
    exact .inl ⟨.plain c, ⟨hplain.1, hquote, hback⟩, rfl, rfl⟩
  rw [if_neg hplain]
  by_cases hbmp : c.val < 0x10000
  · rw [if_pos hbmp]
    exact .inl ⟨hexUnit c.val, valid_hexUnit hbmp, spell_hexUnit hbmp,
      CodePoint.ext_val (val_code_hexUnit hbmp)⟩
  · rw [if_neg hbmp]
    have hc := c.val_lt
    have hhigh : 0xD800 + (c.val - 0x10000) / 0x400 < 0x10000 := by omega
    have hlow : 0xDC00 + (c.val - 0x10000) % 0x400 < 0x10000 := by omega
    refine .inr ⟨_, _, valid_hexUnit hhigh, valid_hexUnit hlow, ?_, ?_, ?_⟩
    · refine decide_eq_true (p := CodePoint.IsHighSurrogate (hexUnit _).code ∧
        CodePoint.IsLowSurrogate (hexUnit _).code) ?_
      simp only [CodePoint.IsHighSurrogate, CodePoint.IsLowSurrogate, val_code_hexUnit hhigh,
        val_code_hexUnit hlow]
      omega
    · rw [spell_hexUnit hhigh, spell_hexUnit hlow]
    · refine CodePoint.ext_val ?_
      simp only [CodePoint.ofSurrogates, val_code_hexUnit hhigh, val_code_hexUnit hlow]
      omega

theorem StringUnit.surrogates_of_pairs {u w : StringUnit} (h : u.pairs w = true) :
    u.code.IsHighSurrogate ∧ w.code.IsLowSurrogate := by
  obtain ⟨_, _, _, _, _, _, _, _, -, -, hsurrogates⟩ := StringUnit.unicode_of_pairs h
  exact hsurrogates

/-- The units that a text is written as. The first of them is a low surrogate only if the first
character is. -/
theorem exists_units_of_unpaired {s : Text} (h : Unpaired s) :
    ∃ us : List StringUnit, (∀ u ∈ us, u.Valid) ∧ us.flatMap (·.spell) = s.flatMap escapeChar ∧
      decode us = s ∧
      ∀ u ∈ us.head?, u.code.IsLowSurrogate → ∃ c ∈ s.head?, c.IsLowSurrogate := by
  induction s with
  | nil => exact ⟨[], nofun, rfl, rfl, nofun⟩
  | cons c s ih =>
    obtain ⟨us, hus, hspell, hdecode, hhead⟩ := ih h.of_cons
    rcases exists_units c with ⟨u, hu, hc, hcode⟩ | ⟨u, w, hu, hw, hpairs, hc, hcode⟩
    · refine ⟨u :: us, List.forall_mem_cons.2 ⟨hu, hus⟩, ?_, ?_, ?_⟩
      · rw [List.flatMap_cons, List.flatMap_cons, hc, hspell]
      · cases us with
        | nil => rw [decode, hcode, ← hdecode]; rfl
        | cons w us =>
          rw [decode, if_neg, hcode, hdecode]
          intro hpairs
          obtain ⟨hhigh, hlow⟩ := StringUnit.surrogates_of_pairs hpairs
          obtain ⟨d, hd, hlow⟩ := hhead w rfl hlow
          obtain ⟨r, rfl⟩ := List.head?_eq_some_iff.1 hd
          exact (List.isChain_cons_cons.1 h).1 ⟨hcode ▸ hhigh, hlow⟩
      · rintro _ ⟨⟩ hlow
        exact ⟨c, rfl, hcode ▸ hlow⟩
    · refine ⟨u :: w :: us, ?_, ?_, ?_, ?_⟩
      · exact List.forall_mem_cons.2 ⟨hu, List.forall_mem_cons.2 ⟨hw, hus⟩⟩
      · rw [List.flatMap_cons, List.flatMap_cons, List.flatMap_cons, ← List.append_assoc, hc,
          hspell]
      · rw [decode, if_pos hpairs, hcode, hdecode]
      · rintro _ ⟨⟩ hlow
        have hhigh := (StringUnit.surrogates_of_pairs hpairs).1
        exact absurd hhigh.2 (by omega)

theorem isString_renderString {s : Text} (h : Unpaired s) : IsString (renderString s) s := by
  obtain ⟨us, hus, hspell, hdecode, -⟩ := exists_units_of_unpaired h
  have hstring := IsString.intro hus
  rw [hspell, hdecode] at hstring
  exact hstring

end Json
end Descent
