import Descent.Proofs.Json.Language

/-!
# String literals

`Grammar.stringLiteral` reads units up to the closing quote. One round takes a unit, or two that
pair; which of both depends on what stands behind the first (`StringUnit.Joins`).
-/

namespace Descent
namespace Parser

variable {ρ : Type → Type} {rules : Rules ρ} {verbose : Bool} {a b c d : CodePoint} {t : Text}

theorem Answers.hexDigit (h : a.IsHex) (t : Text) :
    (Parser.hexDigit (ρ := ρ)).Answers rules verbose (a :: t) (.took a [a]) :=
  .satisfy (decide_eq_true h) t

theorem Reads.hexDigit (t : Text) :
    (Parser.hexDigit (ρ := ρ)).Reads rules verbose (fun s x => s = [x] ∧ x.IsHex) t :=
  (satisfy _ _ t).mono fun _ _ ⟨hs, hx⟩ => ⟨hs, of_decide_eq_true hx⟩

end Parser

namespace Json

open Descent.Parser

variable {ρ : Type → Type} {rules : Rules ρ} {verbose : Bool}

/-- `s` spells the code unit `c` in hexadecimal digits. -/
inductive IsQuad : Text → CodePoint → Prop where
  | intro {a b c d : CodePoint} (ha : a.IsHex) (hb : b.IsHex) (hc : c.IsHex) (hd : d.IsHex) :
      IsQuad [a, b, c, d] (.ofHex a b c d)

theorem hexQuad_answers {s : Text} {c : CodePoint} (h : IsQuad s c) (t : Text) :
    (Grammar.hexQuad (ρ := ρ)).Answers rules verbose (s ++ t) (.took c s) := by
  cases h with
  | @intro a b c d ha hb hc hd =>
    refine (Answers.hexDigit ha (b :: c :: d :: t)).bind (s := [a]) (b := .took _ [b, c, d]) ?_
    refine (Answers.hexDigit hb (c :: d :: t)).bind (s := [b]) (b := .took _ [c, d]) ?_
    refine (Answers.hexDigit hc (d :: t)).bind (s := [c]) (b := .took _ [d]) ?_
    exact (Answers.hexDigit hd t).map _

theorem hexQuad_reads (t : Text) :
    (Grammar.hexQuad (ρ := ρ)).Reads rules verbose IsQuad t := by
  refine (Reads.hexDigit t).bind ?_
  rintro _ a t - ⟨rfl, ha⟩
  refine (Reads.hexDigit t).bind ?_
  rintro _ b t - ⟨rfl, hb⟩
  refine (Reads.hexDigit t).bind ?_
  rintro _ c t - ⟨rfl, hc⟩
  refine (Reads.hexDigit t).map ?_
  rintro _ d ⟨rfl, hd⟩
  exact .intro ha hb hc hd

/-! ### Units -/

theorem letter_ne_u {letter c : CodePoint} (h : (letter, c) ∈ Grammar.simpleEscapes) :
    letter ≠ 'u' :=
  (by decide : ∀ e ∈ Grammar.simpleEscapes, e.1 ≠ 'u') (letter, c) h

namespace StringUnit

/-- The unit in front of a text pairs with `u`. -/
def Joins (u : StringUnit) (t : Text) : Prop :=
  ∃ w x, t = w.spell ++ x ∧ w.Valid ∧ u.pairs w = true

theorem spell_ne_nil (u : StringUnit) : u.spell ≠ [] := by
  cases u <;> exact List.cons_ne_nil _ _

/-- Only the escapes of surrogates pair. -/
theorem unicode_of_pairs {u w : StringUnit} (h : u.pairs w = true) : ∃ a b c d a' b' c' d',
    u = unicode a b c d ∧ w = unicode a' b' c' d' ∧ u.code.IsHighSurrogate ∧
      w.code.IsLowSurrogate := by
  cases u with
  | plain | escape => exact absurd h Bool.false_ne_true
  | unicode a b c d =>
    cases w with
    | plain | escape => exact absurd h Bool.false_ne_true
    | unicode a' b' c' d' => exact ⟨a, b, c, d, a', b', c', d', rfl, rfl, of_decide_eq_true h⟩

/-- Only the unit that stands in front of a text can join. -/
theorem pairs_of_joins {u w : StringUnit} {t : Text} (hw : w.Valid) (h : u.Joins (w.spell ++ t)) :
    u.pairs w = true := by
  rcases h with ⟨w', x, heq, -, hpairs⟩
  obtain ⟨_, _, _, _, _, _, _, _, rfl, rfl, -, -⟩ := unicode_of_pairs hpairs
  cases w with
  | plain c => exact absurd (List.cons.inj heq).1 hw.2.2
  | escape letter c => exact absurd (List.cons.inj (List.cons.inj heq).2).1 (letter_ne_u hw)
  | unicode =>
    simp only [spell, List.cons_append, List.cons.injEq] at heq
    rcases heq with ⟨-, -, rfl, rfl, rfl, rfl, -⟩
    exact hpairs

theorem not_joins_quote (u : StringUnit) (t : Text) : ¬ u.Joins ('"' :: t) := by
  rintro ⟨w, x, heq, -, hpairs⟩
  obtain ⟨_, _, _, _, _, _, _, _, -, rfl, -, -⟩ := unicode_of_pairs hpairs
  exact absurd (List.cons.inj heq).1 (by decide)

end StringUnit

/-- What a round of a string literal takes: a unit, or two that pair. -/
inductive IsCharacter : Text → CodePoint → Prop where
  | one {u : StringUnit} (hu : u.Valid) : IsCharacter u.spell u.code
  | two {u w : StringUnit} (hu : u.Valid) (hw : w.Valid) (h : u.pairs w = true) :
      IsCharacter (u.spell ++ w.spell) (.ofSurrogates u.code w.code)

/-! ### Escapes -/

/-- The escape of a low surrogate, which a high surrogate looks for behind it. -/
def lowEscape : Parser ρ CodePoint :=
  ((Parser.string "\\u").keepRight Grammar.hexQuad).filter
    (fun c => .ok (decide c.IsLowSurrogate)) (fun c => .ok (Text.ofNat c.val)) "a low surrogate"

theorem lowEscape_answers {c : CodePoint} {q : Text} (hq : IsQuad q c) (hc : c.IsLowSurrogate)
    (t : Text) : (lowEscape (ρ := ρ)).Answers rules verbose ("\\u" ++ (q ++ t))
      (.took c ("\\u" ++ q)) := by
  refine Answers.filter_true ?_ (decide_eq_true hc)
  exact (Answers.string "\\u" (q ++ t)).keepRight (hexQuad_answers hq t)

theorem lowEscape_reads (t : Text) : (lowEscape (ρ := ρ)).Reads rules verbose
    (fun s c => (∃ q, s = "\\u" ++ q ∧ IsQuad q c) ∧ decide c.IsLowSurrogate = true) t := by
  refine ((Reads.string "\\u" t).keepRight ?_).filter
  rintro _ _ u - ⟨rfl, -⟩
  exact (hexQuad_reads u).mono fun q c hq => ⟨q, rfl, hq⟩

theorem pairWith_of_not_high {c : CodePoint} (hc : ¬ c.IsHighSurrogate) :
    Grammar.pairWith (ρ := ρ) c = .pure c := if_neg hc

theorem pairWith_of_high {c : CodePoint} (hc : c.IsHighSurrogate) :
    Grammar.pairWith (ρ := ρ) c =
      (lowEscape.map fun low => .ofSurrogates c low).orElse (.pure c) := if_pos hc

theorem unicodeEscape_reads (t : Text) :
    (Grammar.unicodeEscape (ρ := ρ)).Reads rules verbose
      (fun s c => IsCharacter ('\\' :: s) c) t := by
  refine (Reads.char 'u' t).keepRight ?_
  rintro _ _ t - ⟨rfl, -⟩
  refine (hexQuad_reads t).bind ?_
  rintro _ _ t - @⟨a, b, c, d, ha, hb, hc, hd⟩
  have hone : (StringUnit.unicode a b c d).Valid := ⟨ha, hb, hc, hd⟩
  by_cases hhigh : (CodePoint.ofHex a b c d).IsHighSurrogate
  · rw [pairWith_of_high hhigh]
    refine ((lowEscape_reads t).map ?_).orElse (.pure (IsCharacter.one hone))
    rintro _ _ ⟨⟨_, rfl, @⟨a', b', c', d', ha', hb', hc', hd'⟩⟩, hlow⟩
    have htwo : (StringUnit.unicode a' b' c' d').Valid := ⟨ha', hb', hc', hd'⟩
    exact IsCharacter.two hone htwo (decide_eq_true ⟨hhigh, of_decide_eq_true hlow⟩)
  · rw [pairWith_of_not_high hhigh]
    exact .pure (IsCharacter.one hone)

theorem simpleEscape_reads (t : Text) :
    (Grammar.simpleEscape (ρ := ρ)).Reads rules verbose
      (fun s c => IsCharacter ('\\' :: s) c) t := by
  refine Reads.firstOf (by simp [Grammar.simpleEscapes]) fun p hp => ?_
  obtain ⟨⟨letter, c⟩, he, rfl⟩ := List.mem_map.1 hp
  refine (Reads.char letter t).map ?_
  rintro _ _ ⟨rfl, -⟩
  exact IsCharacter.one (u := .escape letter c) he

theorem simpleEscape_answers {letter c : CodePoint} (h : (letter, c) ∈ Grammar.simpleEscapes)
    (t : Text) :
    (Grammar.simpleEscape (ρ := ρ)).Answers rules verbose (letter :: t) (.took c [letter]) := by
  obtain ⟨before, behind, heq⟩ := List.append_of_mem h
  have hnodup : (Grammar.simpleEscapes.map (·.1)).Nodup := by decide
  rw [heq, List.map_append] at hnodup
  rw [Grammar.simpleEscape, heq, List.map_append, List.map_cons]
  refine Answers.firstOf _ _ (fun q hq => ?_) ((Answers.char letter t).map _) (.inl nofun)
  obtain ⟨e, he, rfl⟩ := List.mem_map.1 hq
  refine (Misses.char fun hx => ?_).map _
  have hmem : e.1 ∈ before.map (·.1) := List.mem_map_of_mem he
  exact (List.nodup_append.1 hnodup).2.2 _ hmem letter List.mem_cons_self (Option.some.inj hx).symm

theorem unicodeEscape_answers {q r t : Text} {c x : CodePoint} (hq : IsQuad q c)
    (h : (Grammar.pairWith (ρ := ρ) c).Answers rules verbose t (.took x r)) :
    (Grammar.unicodeEscape (ρ := ρ)).Answers rules verbose ('u' :: (q ++ t))
      (.took x ('u' :: (q ++ r))) :=
  (Answers.char 'u' (q ++ t)).keepRight ((hexQuad_answers hq t).bind h)

/-! ### Rounds -/

def character : Parser ρ CodePoint := Grammar.validChar.orElse Grammar.escapedChar

theorem character_reads (t : Text) : (character (ρ := ρ)).Reads rules verbose IsCharacter t := by
  refine Reads.orElse ((Reads.satisfy _ _ t).mono ?_) ((Reads.char '\\' t).keepRight ?_)
  · rintro _ x ⟨rfl, hx⟩
    have hvalid : 0x20 ≤ x.val ∧ x ≠ '"' ∧ x ≠ '\\' := of_decide_eq_true hx
    exact IsCharacter.one (u := .plain x) hvalid
  · rintro _ _ u - ⟨rfl, -⟩
    exact (unicodeEscape_reads u).orElse (simpleEscape_reads u)

theorem character_of_escaped {r t : Text} {c : CodePoint}
    (h : (Grammar.unicodeEscape.orElse Grammar.simpleEscape).Answers rules verbose t
      (.took c r)) :
    (character (ρ := ρ)).Answers rules verbose ('\\' :: t) (.took c ('\\' :: r)) := by
  refine .orElse_missed (Misses.satisfy (Stops.cons_iff.2 (by decide))) ?_
  exact (Answers.char '\\' t).keepRight h

theorem character_one {u : StringUnit} (hu : u.Valid) {t : Text} (ht : ¬ u.Joins t) :
    (character (ρ := ρ)).Answers rules verbose (u.spell ++ t) (.took u.code u.spell) := by
  cases u with
  | plain c =>
    have hvalid : 0x20 ≤ c.val ∧ c ≠ '"' ∧ c ≠ '\\' := hu
    exact Answers.orElse nofun (.satisfy (decide_eq_true hvalid) t)
  | escape letter c =>
    refine character_of_escaped (.orElse_missed ?_ (simpleEscape_answers hu t))
    refine (Misses.char fun hx => letter_ne_u hu ?_).bind
    exact Option.some.inj hx
  | unicode a b c d =>
    rcases hu with ⟨ha, hb, hc, hd⟩
    have hq : IsQuad [a, b, c, d] (.ofHex a b c d) := .intro ha hb hc hd
    refine character_of_escaped (.orElse nofun (unicodeEscape_answers (r := []) hq ?_))
    by_cases hhigh : (CodePoint.ofHex a b c d).IsHighSurrogate
    · rw [pairWith_of_high hhigh]
      cases lowEscape_reads (ρ := ρ) t with
      | missed h => exact .orElse_missed (h.map _) (.pure _ t)
      | @took v s x hx hL h =>
        rcases hL with ⟨⟨_, rfl, @⟨a', b', c', d', ha', hb', hc', hd'⟩⟩, hlow⟩
        refine absurd ⟨.unicode a' b' c' d', x, hx, ⟨ha', hb', hc', hd'⟩, ?_⟩ ht
        exact decide_eq_true ⟨hhigh, of_decide_eq_true hlow⟩
    · rw [pairWith_of_not_high hhigh]
      exact .pure _ t

theorem character_two {u w : StringUnit} (hu : u.Valid) (hw : w.Valid) (h : u.pairs w = true)
    (t : Text) : (character (ρ := ρ)).Answers rules verbose (u.spell ++ (w.spell ++ t))
      (.took (.ofSurrogates u.code w.code) (u.spell ++ w.spell)) := by
  obtain ⟨a, b, c, d, a', b', c', d', rfl, rfl, hhigh, hlow⟩ := StringUnit.unicode_of_pairs h
  rcases hu with ⟨ha, hb, hc, hd⟩
  rcases hw with ⟨ha', hb', hc', hd'⟩
  have hq : IsQuad [a, b, c, d] (.ofHex a b c d) := .intro ha hb hc hd
  have hq' : IsQuad [a', b', c', d'] (.ofHex a' b' c' d') := .intro ha' hb' hc' hd'
  have hhigh : (CodePoint.ofHex a b c d).IsHighSurrogate := hhigh
  refine character_of_escaped (.orElse nofun (unicodeEscape_answers hq ?_))
  rw [pairWith_of_high hhigh]
  exact ((lowEscape_answers hq' hlow t).map _).orElse nofun

/-- A round takes two units whenever they pair. -/
theorem decode_cons {u : StringUnit} {us : List StringUnit} {t : Text}
    (hus : ∀ w ∈ us, w.Valid) (hu : u.Valid)
    (h : (character (ρ := ρ)).Answers rules verbose (u.spell ++ (us.flatMap (·.spell) ++ t))
      (.took u.code u.spell)) : decode (u :: us) = u.code :: decode us := by
  cases us with
  | nil => rfl
  | cons w us =>
    rw [decode]
    refine if_neg fun hpairs => ?_
    rw [List.flatMap_cons, List.append_assoc] at h
    have hw : w.Valid := hus w List.mem_cons_self
    have hspell := (Answer.took.inj (h.unique (character_two hu hw hpairs _))).2
    rw [List.self_eq_append_right] at hspell
    exact w.spell_ne_nil hspell

theorem character_misses_quote (t : Text) :
    (character (ρ := ρ)).Misses rules verbose ('"' :: t) := by
  refine Misses.orElse (Misses.satisfy (Stops.cons_iff.2 (by decide))) (Misses.char ?_).bind
  exact fun hx => absurd (Option.some.inj hx) (by decide)

/-- The units up to a closing quote are taken, and their characters are the value. -/
theorem many_character {us : List StringUnit} (h : ∀ u ∈ us, u.Valid) (t : Text) :
    (character (ρ := ρ)).many.Answers rules verbose
      (us.flatMap (·.spell) ++ (('"' : CodePoint) :: t))
      (.took (decode us) (us.flatMap (·.spell))) := by
  induction us using decode.induct with
  | case1 => exact .many_missed (character_misses_quote t)
  | case2 u =>
    have hu : u.Valid := h u List.mem_cons_self
    rw [List.flatMap_cons, List.append_assoc]
    exact (character_one hu (u.not_joins_quote t)).many u.spell_ne_nil
      (.many_missed (character_misses_quote t))
  | case3 u w us hpairs ih =>
    obtain ⟨hu, hw, hus⟩ : u.Valid ∧ w.Valid ∧ ∀ u ∈ us, u.Valid := by simpa using h
    have hne : u.spell ++ w.spell ≠ [] := by simp [u.spell_ne_nil]
    rw [decode, if_pos hpairs, List.flatMap_cons, List.flatMap_cons, ← List.append_assoc,
      List.append_assoc]
    refine Answers.many ?_ hne (ih hus)
    rw [List.append_assoc]
    exact character_two hu hw hpairs _
  | case4 u w us hpairs ih =>
    obtain ⟨hu, hws⟩ : u.Valid ∧ ∀ v ∈ w :: us, v.Valid := by simpa using h
    rw [decode, if_neg hpairs, List.flatMap_cons, List.append_assoc]
    refine (character_one hu fun hjoins => hpairs ?_).many u.spell_ne_nil (ih hws)
    rw [List.flatMap_cons, List.append_assoc] at hjoins
    exact StringUnit.pairs_of_joins (hws w List.mem_cons_self) hjoins

theorem many_character_reads (t : Text) :
    (character (ρ := ρ)).many.Reads rules verbose
      (fun s v => ∃ us : List StringUnit, (∀ u ∈ us, u.Valid) ∧ s = us.flatMap (·.spell) ∧
        v = decode us) t := by
  refine Reads.many ⟨[], nofun, rfl, rfl⟩ ?_ ?_ fun _ u _ => character_reads u
  · rintro _ _ _ _ t h hone ⟨us, hus, rfl, rfl⟩
    cases hone with
    | @one u hu =>
      refine ⟨u :: us, List.forall_mem_cons.2 ⟨hu, hus⟩, rfl, ?_⟩
      exact (decode_cons hus hu h).symm
    | @two u w hu hw hpairs =>
      refine ⟨u :: w :: us, ?_, ?_, ?_⟩
      · exact List.forall_mem_cons.2 ⟨hu, List.forall_mem_cons.2 ⟨hw, hus⟩⟩
      · rw [List.flatMap_cons, List.flatMap_cons, List.append_assoc]
      · rw [decode, if_pos hpairs]
  · rintro _ _ (@⟨u, -⟩ | @⟨u, w, -, -, -⟩)
    · exact u.spell_ne_nil
    · simp [u.spell_ne_nil]

/-! ### Literals -/

theorem stringLiteral_reads (t : Text) :
    (Grammar.stringLiteral (ρ := ρ)).Reads rules verbose IsString t := by
  refine (Reads.char '"' t).between (fun _ _ u _ _ => many_character_reads u)
    (fun _ u _ => Reads.char '"' u) ?_
  rintro _ _ _ _ _ _ ⟨rfl, -⟩ ⟨us, hus, rfl, rfl⟩ ⟨rfl, -⟩
  exact .intro hus

theorem stringLiteral_answers {s x : Text} (h : IsString s x) (t : Text) :
    (Grammar.stringLiteral (ρ := ρ)).Answers rules verbose (s ++ t) (.took x s) := by
  rcases h with ⟨hus⟩
  rw [List.cons_append, List.append_assoc]
  exact Answers.between (s := ['"']) (w := ['"']) (.char '"' _) (many_character hus t) (.char '"' t)

theorem stringLiteral_misses {t : Text} (h : ('"' : CodePoint) ∉ t.head?) :
    (Grammar.stringLiteral (ρ := ρ)).Misses rules verbose t := (Misses.char h).bind

end Json
end Descent
