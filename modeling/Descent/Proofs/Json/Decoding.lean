import Descent.Proofs.Json.Guarded
import Descent.Proofs.Json.StringLiteral

/-!
# What string literals denote

`Decodes b v`: between quotation marks, `b` denotes `v`. The rules read `b` from left to right, as a
text. The escape of a high surrogate joins with the escape of a low one that stands right behind it,
and is a character of its own in front of anything else. `Grammar.stringLiteral` takes a literal
with such a body wherever there is one, fails everywhere else and never aborts
(`stringLiteral_decodes`).
-/

namespace Descent
namespace Json

open Descent.Parser

variable {ρ : Type → Type} {rules : Rules ρ} {verbose : Bool}

/-! ### Bodies of literals -/

/-- `c` is the hexadecimal digit of `n`, in either case. -/
abbrev HexDigit (c : CodePoint) (n : Nat) : Prop :=
  ("0123456789abcdef" : Text)[n]? = some c ∨ ("0123456789ABCDEF" : Text)[n]? = some c

/-- A backslash, the letter `u` and four hexadecimal digits, which give a code point. -/
inductive IsEscape : Text → CodePoint → Prop where
  | intro {a b c d x : CodePoint} {i j k l : Nat} (ha : HexDigit a i) (hb : HexDigit b j)
      (hc : HexDigit c k) (hd : HexDigit d l) (hx : x.val = ((i * 16 + j) * 16 + k) * 16 + l) :
      IsEscape ['\\', 'u', a, b, c, d] x

/-- The escape of a low surrogate stands in front. -/
def StartsLow (t : Text) : Prop := ∃ e low, IsEscape e low ∧ low.IsLowSurrogate ∧ e <+: t

/-- Characters and escapes, one after another. -/
def IsBody (b : Text) : Prop :=
  ∃ us : List StringUnit, (∀ u ∈ us, u.Valid) ∧ b = us.flatMap (·.spell)

/-- The literal with a body. -/
def quoted (b : Text) : Text := '"' :: (b ++ [('"' : CodePoint)])

/-- The second text is what a body denotes. -/
inductive Decodes : Text → Text → Prop where
  | nil : Decodes [] []
  | raw {c : CodePoint} {s v : Text} (hc : 0x20 ≤ c.val ∧ c ≠ '"' ∧ c ≠ '\\') (h : Decodes s v) :
      Decodes (c :: s) (c :: v)
  | simple {letter c : CodePoint} {s v : Text} (hc : (letter, c) ∈ Grammar.simpleEscapes)
      (h : Decodes s v) : Decodes ('\\' :: letter :: s) (c :: v)
  | pair {e e' s v : Text} {high low x : CodePoint} (he : IsEscape e high)
      (hhigh : high.IsHighSurrogate) (he' : IsEscape e' low) (hlow : low.IsLowSurrogate)
      (hx : x.val = 0x10000 + (high.val - 0xD800) * 0x400 + (low.val - 0xDC00))
      (h : Decodes s v) : Decodes (e ++ (e' ++ s)) (x :: v)
  | alone {e s v : Text} {c : CodePoint} (he : IsEscape e c)
      (hs : ¬ (c.IsHighSurrogate ∧ StartsLow s)) (h : Decodes s v) : Decodes (e ++ s) (c :: v)

/-! ### Bodies as sequences of units -/

theorem hexDigit_iff {c : CodePoint} {n : Nat} :
    HexDigit c n ↔ c.IsHex ∧ c.hexValue.val = n := by
  constructor
  · intro h
    have hlt : n < 16 := by
      by_contra hn
      rcases h with h | h
      · rw [List.getElem?_eq_none (Nat.le_of_not_lt hn)] at h
        cases h
      · rw [List.getElem?_eq_none (Nat.le_of_not_lt hn)] at h
        cases h
    have hall : ∀ n < 16, (∀ c ∈ ("0123456789abcdef" : Text)[n]?, c.IsHex ∧ c.hexValue.val = n) ∧
        ∀ c ∈ ("0123456789ABCDEF" : Text)[n]?, c.IsHex ∧ c.hexValue.val = n := by decide
    exact h.elim ((hall n hlt).1 c) ((hall n hlt).2 c)
  · rintro ⟨hc, rfl⟩
    rcases hc with hc | hc
    · rw [CodePoint.isDigit_iff_mem] at hc
      exact (by decide : ∀ c ∈ ("0123456789" : Text), HexDigit c c.hexValue.val) c hc
    · exact (by decide : ∀ c ∈ ("abcdefABCDEF" : Text), HexDigit c c.hexValue.val) c hc

theorem isEscape_iff {e : Text} {x : CodePoint} : IsEscape e x ↔ ∃ a b c d,
    (StringUnit.unicode a b c d).Valid ∧ e = (StringUnit.unicode a b c d).spell ∧
      x = (StringUnit.unicode a b c d).code := by
  constructor
  · rintro ⟨ha, hb, hc, hd, hx⟩
    obtain ⟨hha, rfl⟩ := hexDigit_iff.1 ha
    obtain ⟨hhb, rfl⟩ := hexDigit_iff.1 hb
    obtain ⟨hhc, rfl⟩ := hexDigit_iff.1 hc
    obtain ⟨hhd, rfl⟩ := hexDigit_iff.1 hd
    exact ⟨_, _, _, _, ⟨hha, hhb, hhc, hhd⟩, rfl, CodePoint.ext_val hx⟩
  · rintro ⟨a, b, c, d, ⟨ha, hb, hc, hd⟩, rfl, rfl⟩
    exact .intro (hexDigit_iff.2 ⟨ha, rfl⟩) (hexDigit_iff.2 ⟨hb, rfl⟩) (hexDigit_iff.2 ⟨hc, rfl⟩)
      (hexDigit_iff.2 ⟨hd, rfl⟩) rfl

namespace StringUnit

variable {a b c d : CodePoint} {t : Text}

theorem escapes_of_pairs {u w : StringUnit} (hu : u.Valid) (hw : w.Valid) (h : u.pairs w = true) :
    (IsEscape u.spell u.code ∧ u.code.IsHighSurrogate) ∧
      (IsEscape w.spell w.code ∧ w.code.IsLowSurrogate) := by
  obtain ⟨_, _, _, _, _, _, _, _, rfl, rfl, hhigh, hlow⟩ := unicode_of_pairs h
  exact ⟨⟨isEscape_iff.2 ⟨_, _, _, _, hu, rfl, rfl⟩, hhigh⟩,
    isEscape_iff.2 ⟨_, _, _, _, hw, rfl, rfl⟩, hlow⟩

theorem joins_unicode_iff : (unicode a b c d).Joins t ↔
    (unicode a b c d).code.IsHighSurrogate ∧ StartsLow t := by
  constructor
  · rintro ⟨w, x, rfl, hw, hpairs⟩
    obtain ⟨_, _, _, _, _, _, _, _, -, rfl, hhigh, hlow⟩ := unicode_of_pairs hpairs
    exact ⟨hhigh, _, _, isEscape_iff.2 ⟨_, _, _, _, hw, rfl, rfl⟩, hlow, x, rfl⟩
  · rintro ⟨hhigh, e, low, he, hlow, x, rfl⟩
    obtain ⟨a', b', c', d', hw, rfl, rfl⟩ := isEscape_iff.1 he
    exact ⟨.unicode a' b' c' d', x, rfl, hw, decide_eq_true ⟨hhigh, hlow⟩⟩

theorem not_joins_nil (u : StringUnit) : ¬ u.Joins [] := by
  rintro ⟨w, x, heq, -, -⟩
  exact w.spell_ne_nil (List.append_eq_nil_iff.1 heq.symm).1

end StringUnit

theorem decode_cons_of_not_joins {u : StringUnit} {us : List StringUnit}
    (hus : ∀ w ∈ us, w.Valid) (hu : ¬ u.Joins (us.flatMap (·.spell))) :
    decode (u :: us) = u.code :: decode us := by
  cases us with
  | nil => rfl
  | cons w us =>
    rw [decode]
    exact if_neg fun hpairs =>
      hu ⟨w, us.flatMap (·.spell), List.flatMap_cons, hus w List.mem_cons_self, hpairs⟩

theorem code_ofSurrogates {high low x : CodePoint} (hhigh : high.IsHighSurrogate)
    (hlow : low.IsLowSurrogate) : CodePoint.ofSurrogates high low = x ↔
      x.val = 0x10000 + (high.val - 0xD800) * 0x400 + (low.val - 0xDC00) := by
  have hval : (CodePoint.ofSurrogates high low).val =
      0x10000 + (high.val - 0xD800) * 0x400 + (low.val - 0xDC00) := by
    simp only [CodePoint.ofSurrogates]
    omega
  rw [← hval]
  exact ⟨fun h => h ▸ rfl, fun h => (CodePoint.ext_val h).symm⟩

namespace Decodes

theorem cons {u : StringUnit} {s v : Text} (hu : u.Valid) (hs : ¬ u.Joins s) (h : Decodes s v) :
    Decodes (u.spell ++ s) (u.code :: v) := by
  cases u with
  | plain c => exact .raw hu h
  | escape letter c => exact .simple hu h
  | unicode a b c d =>
    rw [StringUnit.joins_unicode_iff] at hs
    exact .alone (isEscape_iff.2 ⟨a, b, c, d, hu, rfl, rfl⟩) hs h

theorem of_units {us : List StringUnit} (h : ∀ u ∈ us, u.Valid) :
    Decodes (us.flatMap (·.spell)) (decode us) := by
  induction us using decode.induct with
  | case1 => exact .nil
  | case2 u => exact .cons (h u List.mem_cons_self) u.not_joins_nil .nil
  | case3 u w us hpairs ih =>
    obtain ⟨hu, hw, hus⟩ : u.Valid ∧ w.Valid ∧ ∀ u ∈ us, u.Valid := by simpa using h
    rw [decode, if_pos hpairs, List.flatMap_cons, List.flatMap_cons]
    obtain ⟨⟨he, hhigh⟩, he', hlow⟩ := StringUnit.escapes_of_pairs hu hw hpairs
    exact .pair he hhigh he' hlow ((code_ofSurrogates hhigh hlow).1 rfl) (ih hus)
  | case4 u w us hpairs ih =>
    obtain ⟨hu, hws⟩ : u.Valid ∧ ∀ v ∈ w :: us, v.Valid := by simpa using h
    rw [decode, if_neg hpairs, List.flatMap_cons]
    refine .cons hu (fun hjoins => hpairs ?_) (ih hws)
    exact StringUnit.pairs_of_joins (hws w List.mem_cons_self) hjoins

theorem units {s v : Text} (h : Decodes s v) : ∃ us : List StringUnit,
    (∀ u ∈ us, u.Valid) ∧ s = us.flatMap (·.spell) ∧ v = decode us := by
  induction h with
  | nil => exact ⟨[], nofun, rfl, rfl⟩
  | @raw c s v hc _ ih =>
    obtain ⟨us, hus, rfl, rfl⟩ := ih
    have hjoins : ¬ (StringUnit.plain c).Joins (us.flatMap (·.spell)) :=
      fun ⟨_, _, _, _, h⟩ => Bool.false_ne_true h
    exact ⟨.plain c :: us, List.forall_mem_cons.2 ⟨hc, hus⟩, rfl,
      (decode_cons_of_not_joins hus hjoins).symm⟩
  | @simple letter c s v hc _ ih =>
    obtain ⟨us, hus, rfl, rfl⟩ := ih
    have hjoins : ¬ (StringUnit.escape letter c).Joins (us.flatMap (·.spell)) :=
      fun ⟨_, _, _, _, h⟩ => Bool.false_ne_true h
    exact ⟨.escape letter c :: us, List.forall_mem_cons.2 ⟨hc, hus⟩, rfl,
      (decode_cons_of_not_joins hus hjoins).symm⟩
  | pair he hhigh he' hlow hx _ ih =>
    obtain ⟨us, hus, rfl, rfl⟩ := ih
    obtain ⟨a, b, c, d, hu, rfl, rfl⟩ := isEscape_iff.1 he
    obtain ⟨a', b', c', d', hw, rfl, rfl⟩ := isEscape_iff.1 he'
    have hpairs : (StringUnit.unicode a b c d).pairs (.unicode a' b' c' d') = true :=
      decide_eq_true ⟨hhigh, hlow⟩
    refine ⟨.unicode a b c d :: .unicode a' b' c' d' :: us, ?_, rfl, ?_⟩
    · exact List.forall_mem_cons.2 ⟨hu, List.forall_mem_cons.2 ⟨hw, hus⟩⟩
    · rw [decode, if_pos hpairs, (code_ofSurrogates hhigh hlow).2 hx]
  | alone he hs _ ih =>
    obtain ⟨us, hus, rfl, rfl⟩ := ih
    obtain ⟨a, b, c, d, hu, rfl, rfl⟩ := isEscape_iff.1 he
    rw [← StringUnit.joins_unicode_iff] at hs
    exact ⟨.unicode a b c d :: us, List.forall_mem_cons.2 ⟨hu, hus⟩, rfl,
      (decode_cons_of_not_joins hus hs).symm⟩

end Decodes

theorem isString_iff {s v : Text} : IsString s v ↔ ∃ b, s = quoted b ∧ Decodes b v := by
  constructor
  · rintro ⟨hus⟩
    exact ⟨_, rfl, .of_units hus⟩
  · rintro ⟨b, rfl, h⟩
    obtain ⟨us, hus, rfl, rfl⟩ := h.units
    exact .intro hus

/-- Every body denotes something, and nothing else does. -/
theorem isBody_iff {b : Text} : IsBody b ↔ ∃ v, Decodes b v := by
  constructor
  · rintro ⟨us, hus, rfl⟩
    exact ⟨_, .of_units hus⟩
  · rintro ⟨v, h⟩
    obtain ⟨us, hus, rfl, -⟩ := h.units
    exact ⟨us, hus, rfl⟩

/-! ### Literals -/

theorem quoted_inj {b b' : Text} (h : quoted b = quoted b') : b = b' :=
  List.append_cancel_right (List.cons.inj h).2

theorem stringLiteral_of_quoted {b v t : Text} (hb : quoted b <+: t) (hv : Decodes b v) :
    (Grammar.stringLiteral (ρ := ρ)).Answers rules verbose t (.took v (quoted b)) := by
  obtain ⟨u, rfl⟩ := hb
  exact stringLiteral_answers (isString_iff.2 ⟨b, rfl, hv⟩) u

/-- A text starts with one literal at most, which denotes one text: both are what is taken. -/
theorem quoted_unique {b b' v v' t : Text} (hb : quoted b <+: t) (hv : Decodes b v)
    (hb' : quoted b' <+: t) (hv' : Decodes b' v') : b' = b ∧ v' = v := by
  have h : (Grammar.stringLiteral (ρ := Rule)).Answers Json.rules false t _ :=
    stringLiteral_of_quoted hb hv
  obtain ⟨hvalue, hliteral⟩ := Answer.took.inj ((stringLiteral_of_quoted hb' hv').unique h)
  exact ⟨quoted_inj hliteral, hvalue⟩

/-- A string is read wherever a literal stands, and it is the literal that is taken. Nothing else
comes of it but a failure, and the depth that readings have is enough. -/
theorem stringLiteral_decodes (rules : Rules ρ) (verbose : Bool) (c : Cursor) :
    let p : Parser ρ Text := Grammar.stringLiteral
    let r := p.parse rules verbose c
    p.Reaches rules verbose c r ∧
      ((∃ v d, r.result = .success v d) ↔ ∃ b, IsBody b ∧ quoted b <+: c.unread) ∧
      (∀ b, IsBody b → quoted b <+: c.unread →
        (∀ b', IsBody b' → quoted b' <+: c.unread → b' = b) ∧
        ∃ v, (∀ w, Decodes b w ↔ w = v) ∧ r.result = .success v (c.skip (quoted b))) ∧
      ∀ a, r.result ≠ .abort a := by
  intro p r
  have hreaches : p.Reaches rules verbose c r :=
    guarded_stringLiteral.reaches_run (by decide) c
  have hresult {a : Answer Text} (ha : p.Answers rules verbose c.unread a) :
      r.result = a.outcome c := ha.result_of_not_tooDeep rfl hreaches.1
  have hread : ∀ b, IsBody b → quoted b <+: c.unread →
      ∃ v, Decodes b v ∧ r.result = .success v (c.skip (quoted b)) := by
    intro b hb hprefix
    obtain ⟨v, hv⟩ := isBody_iff.1 hb
    exact ⟨v, hv, hresult (stringLiteral_of_quoted hprefix hv)⟩
  have hends : (∃ b, IsBody b ∧ quoted b <+: c.unread) ∨ ∃ f, r.result = .failure f := by
    have hreads : p.Reads rules verbose IsString c.unread := stringLiteral_reads c.unread
    cases hreads with
    | @took v s t ht hs h =>
      obtain ⟨b, rfl, hb⟩ := isString_iff.1 hs
      exact .inl ⟨b, isBody_iff.2 ⟨v, hb⟩, t, ht.symm⟩
    | missed h =>
      obtain ⟨s, message, h⟩ := h
      exact .inr ⟨_, hresult h⟩
  refine ⟨hreaches, ⟨fun ⟨v, d, hv⟩ => ?_, fun ⟨b, hb, hprefix⟩ => ?_⟩, fun b hb hprefix => ?_,
    fun a ha => ?_⟩
  · exact hends.resolve_right fun ⟨f, hf⟩ => nomatch hv.symm.trans hf
  · obtain ⟨v, -, hv⟩ := hread b hb hprefix
    exact ⟨v, _, hv⟩
  · obtain ⟨v, hv, hsuccess⟩ := hread b hb hprefix
    refine ⟨fun b' hb' hprefix' => ?_, v, fun w => ⟨fun hw => ?_, fun hw => hw ▸ hv⟩, hsuccess⟩
    · obtain ⟨v', hv'⟩ := isBody_iff.1 hb'
      exact (quoted_unique hprefix hv hprefix' hv').1
    · exact (quoted_unique hprefix hv hprefix hw).2
  · rcases hends with ⟨b, hb, hprefix⟩ | ⟨f, hf⟩
    · obtain ⟨v, -, hv⟩ := hread b hb hprefix
      exact nomatch ha.symm.trans hv
    · exact nomatch ha.symm.trans hf

/-- A high surrogate in front of a pair is left alone. -/
example :
    let t : Text := quoted "\\ud83d\\uD83D\\uDE00"
    let c : Cursor := .start t []
    ((Grammar.stringLiteral (ρ := Rule)).parse Json.rules false c).result =
      .success [⟨0xD83D, by decide⟩, ⟨0x1F600, by decide⟩] (c.skip t) := by
  decide +kernel

end Json
end Descent
