import Mathlib.Computability.RegularExpressions
import Descent.Proofs.Json.Guarded
import Descent.Proofs.LongestPrefix

/-!
# Numbers as a regular language

    -?(0|[1-9][0-9]*)(\.[0-9]+)?([eE][+-]?[0-9]+)?

`numberPattern` is this expression, and it matches the words of `IsNumber`. `Grammar.numberLiteral`
takes the longest match. The parts that it reads spell the match, but for an upper-case mark of an
exponent (`parts_eq_map`), so their value is that of the match itself (`numberLiteral_lexes`).
-/

namespace Descent

namespace Pattern

/-- One of the characters of a text. -/
def oneOf (cs : Text) : RegularExpression CodePoint := cs.foldr (fun c P => .char c + P) 0

def optional (P : RegularExpression CodePoint) : RegularExpression CodePoint := 1 + P

def digit : RegularExpression CodePoint := oneOf "0123456789"

def digits : RegularExpression CodePoint := digit * digit.star

variable {P : RegularExpression CodePoint} {cs s : Text}

theorem mem_oneOf : s ∈ (oneOf cs).matches' ↔ ∃ c ∈ cs, s = [c] := by
  induction cs with
  | nil => exact iff_of_false (Language.notMem_zero s) nofun
  | cons c cs ih =>
    rw [oneOf, List.foldr_cons, RegularExpression.matches'_add, Language.mem_add,
      List.exists_mem_cons_iff]
    exact or_congr Iff.rfl ih

theorem mem_optional : s ∈ (optional P).matches' ↔ s = [] ∨ s ∈ P.matches' := by
  rw [optional, RegularExpression.matches'_add, RegularExpression.matches'_epsilon,
    Language.mem_add, Language.mem_one]

theorem mem_star_digit : s ∈ digit.star.matches' ↔ Parser.AreDigits s := by
  rw [RegularExpression.matches'_star, Language.mem_kstar]
  constructor
  · rintro ⟨ds, rfl, hds⟩ d hd
    obtain ⟨s, hs, hd⟩ := List.mem_flatten.1 hd
    obtain ⟨c, hc, rfl⟩ := mem_oneOf.1 (hds s hs)
    rw [List.mem_singleton.1 hd]
    exact CodePoint.isDigit_iff_mem.2 hc
  · intro hs
    refine ⟨s.map fun d => [d], (List.flatMap_singleton' s).symm, fun y hy => ?_⟩
    obtain ⟨d, hd, rfl⟩ := List.mem_map.1 hy
    exact mem_oneOf.2 ⟨d, CodePoint.isDigit_iff_mem.1 (hs d hd), rfl⟩

theorem mem_digits : s ∈ digits.matches' ↔ s ≠ [] ∧ Parser.AreDigits s := by
  rw [digits, RegularExpression.matches'_mul, Language.mem_mul]
  constructor
  · rintro ⟨_, hfirst, ds, hds, rfl⟩
    obtain ⟨d, hd, rfl⟩ := mem_oneOf.1 hfirst
    rw [← CodePoint.isDigit_iff_mem] at hd
    exact ⟨List.cons_ne_nil d ds, List.forall_mem_cons.2 ⟨hd, mem_star_digit.1 hds⟩⟩
  · rintro ⟨hne, hs⟩
    obtain ⟨d, ds, rfl⟩ := List.exists_cons_of_ne_nil hne
    obtain ⟨hd, hds⟩ := List.forall_mem_cons.1 hs
    exact ⟨[d], mem_oneOf.2 ⟨d, CodePoint.isDigit_iff_mem.1 hd, rfl⟩, ds, mem_star_digit.2 hds, rfl⟩

end Pattern

namespace Json

/-! ### The pattern -/

section
open Pattern

def minusPattern : RegularExpression CodePoint := optional (.char '-')

def integerPattern : RegularExpression CodePoint :=
  .char '0' + oneOf "123456789" * digit.star

def fractionPattern : RegularExpression CodePoint := optional (.char '.' * digits)

def exponentPattern : RegularExpression CodePoint :=
  optional (oneOf "eE" * (optional (oneOf "+-") * digits))

def numberPattern : RegularExpression CodePoint :=
  minusPattern * (integerPattern * (fractionPattern * exponentPattern))

variable {s : Text}

theorem mem_minusPattern : s ∈ minusPattern.matches' ↔ ∃ negative, IsMinus s negative := by
  rw [minusPattern, mem_optional]
  constructor
  · rintro (rfl | rfl)
    · exact ⟨false, .none⟩
    · exact ⟨true, .minus⟩
  · rintro ⟨_, _ | _⟩
    · exact .inl rfl
    · exact .inr rfl

theorem nonZero_iff_mem {d : CodePoint} :
    d ∈ ("123456789" : Text) ↔ d.IsDigit ∧ d ≠ '0' := by
  rw [CodePoint.isDigit_iff_mem]
  constructor
  · exact (by decide : ∀ d ∈ ("123456789" : Text), d ∈ ("0123456789" : Text) ∧ d ≠ '0') d
  · rintro ⟨hd, hne⟩
    exact (List.mem_cons.1 hd).resolve_left hne

theorem mem_integerPattern : s ∈ integerPattern.matches' ↔ IsInteger s := by
  rw [integerPattern, RegularExpression.matches'_add, Language.mem_add,
    RegularExpression.matches'_mul, Language.mem_mul]
  constructor
  · rintro (rfl | ⟨_, hfirst, ds, hds, rfl⟩)
    · exact .zero
    · obtain ⟨d, hd, rfl⟩ := mem_oneOf.1 hfirst
      obtain ⟨hd, hne⟩ := nonZero_iff_mem.1 hd
      exact .nonZero hd hne (mem_star_digit.1 hds)
  · rintro (_ | ⟨hd, hne, hds⟩)
    · exact .inl rfl
    · exact .inr ⟨[_], mem_oneOf.2 ⟨_, nonZero_iff_mem.2 ⟨hd, hne⟩, rfl⟩, _, mem_star_digit.2 hds,
        rfl⟩

theorem mem_fractionPattern : s ∈ fractionPattern.matches' ↔ ∃ fs, IsFraction s fs := by
  rw [fractionPattern, mem_optional, RegularExpression.matches'_mul, Language.mem_mul]
  constructor
  · rintro (rfl | ⟨_, rfl, fs, hfs, rfl⟩)
    · exact ⟨[], .none⟩
    · obtain ⟨hne, hfs⟩ := mem_digits.1 hfs
      exact ⟨fs, .digits hne hfs⟩
  · rintro ⟨_, _ | ⟨hne, hfs⟩⟩
    · exact .inl rfl
    · exact .inr ⟨_, rfl, _, mem_digits.2 ⟨hne, hfs⟩, rfl⟩

theorem mem_sign : s ∈ (optional (oneOf "+-")).matches' ↔ ∃ negative, IsSign s negative := by
  rw [mem_optional, mem_oneOf]
  constructor
  · rintro (rfl | ⟨c, hc, rfl⟩)
    · exact ⟨false, .none⟩
    · rcases (by decide : ∀ c ∈ ("+-" : Text), c = '+' ∨ c = '-') c hc with rfl | rfl
      · exact ⟨false, .plus⟩
      · exact ⟨true, .minus⟩
  · rintro ⟨_, _ | _ | _⟩
    · exact .inl rfl
    · exact .inr ⟨'+', by decide, rfl⟩
    · exact .inr ⟨'-', by decide, rfl⟩

theorem mem_exponentPattern : s ∈ exponentPattern.matches' ↔ ∃ x, IsExponent s x := by
  rw [exponentPattern, mem_optional, RegularExpression.matches'_mul, Language.mem_mul,
    RegularExpression.matches'_mul]
  constructor
  · rintro (rfl | ⟨_, hmark, r, hr, rfl⟩)
    · exact ⟨0, .none⟩
    · obtain ⟨mark, hmem, rfl⟩ := mem_oneOf.1 hmark
      obtain ⟨sg, hsg, ds, hds, rfl⟩ := Language.mem_mul.1 hr
      obtain ⟨negative, hsg⟩ := mem_sign.1 hsg
      obtain ⟨hne, hds⟩ := mem_digits.1 hds
      have he := (by decide : ∀ c ∈ ("eE" : Text), c = 'e' ∨ c = 'E') mark hmem
      have hexponent := IsExponent.digits he hsg hne hds
      exact ⟨_, hexponent⟩
  · rintro ⟨_, _ | ⟨hmark, hsg, hne, hds⟩⟩
    · exact .inl rfl
    · refine .inr ⟨[_], mem_oneOf.2 ⟨_, ?_, rfl⟩, _, Language.mem_mul.2 ⟨_, mem_sign.2 ⟨_, hsg⟩, _,
        mem_digits.2 ⟨hne, hds⟩, rfl⟩, rfl⟩
      rcases hmark with rfl | rfl <;> decide

theorem mem_numberPattern : s ∈ numberPattern.matches' ↔ ∃ v, IsNumber s v := by
  simp only [numberPattern, RegularExpression.matches'_mul, Language.mem_mul, mem_minusPattern,
    mem_integerPattern, mem_fractionPattern, mem_exponentPattern]
  constructor
  · rintro ⟨sg, ⟨negative, hsg⟩, _, ⟨ds, hds, _, ⟨f, ⟨fs, hf⟩, e, ⟨x, he⟩, rfl⟩, rfl⟩, rfl⟩
    exact ⟨_, .intro hsg hds hf he⟩
  · rintro ⟨_, ⟨hsg, hds, hf, he⟩⟩
    exact ⟨_, ⟨_, hsg⟩, _, ⟨_, hds, _, ⟨_, ⟨_, hf⟩, _, ⟨_, he⟩, rfl⟩, rfl⟩, rfl⟩

end

/-! ### The parts -/

open Descent.Parser

section
variable {sg ds f fs e : Text} {negative : Bool} {x : Int}

/-- An exponent is given with a lower-case mark. -/
def lowerMark (c : CodePoint) : CodePoint := if c = 'E' then 'e' else c

theorem map_lowerMark {s : Text} (hs : ('E' : CodePoint) ∉ s) : s.map lowerMark = s := by
  refine (List.map_congr_left fun c hc => if_neg ?_).trans (List.map_id s)
  rintro rfl
  exact hs hc

theorem upperMark_not_mem {ds : Text} (hds : AreDigits ds) : ('E' : CodePoint) ∉ ds :=
  fun h => absurd (hds _ h) (by decide)

theorem lowered_eq_map (he : IsExponent e x) : lowered e = e.map lowerMark := by
  cases he with
  | none => rfl
  | @digits mark sg ds _ hmark hsg hne hds =>
    have hsign : ('E' : CodePoint) ∉ sg := by cases hsg <;> decide
    have hrest : ('E' : CodePoint) ∉ sg ++ ds :=
      fun h => (List.mem_append.1 h).elim hsign (upperMark_not_mem hds)
    have hfirst : lowerMark mark = 'e' := by rcases hmark with rfl | rfl <;> rfl
    rw [lowered, List.map_cons, hfirst, map_lowerMark hrest]

theorem parts_eq_map (hsg : IsMinus sg negative) (hds : IsInteger ds) (hf : IsFraction f fs)
    (he : IsExponent e x) :
    sg ++ (ds ++ (f ++ lowered e)) = (sg ++ (ds ++ (f ++ e))).map lowerMark := by
  have hsign : ('E' : CodePoint) ∉ sg := by cases hsg <;> decide
  have hfraction : ('E' : CodePoint) ∉ f := by
    cases hf with
    | none => exact List.not_mem_nil
    | digits hne hfs =>
      exact fun h => (List.mem_cons.1 h).elim (by decide) (upperMark_not_mem hfs)
  simp only [List.map_append, map_lowerMark hsign, map_lowerMark hfraction, lowered_eq_map he,
    map_lowerMark (upperMark_not_mem hds.areDigits.2)]

/-- A number has a point or a mark if it has a fraction or an exponent. -/
theorem exists_mark_iff (hsg : IsMinus sg negative) (hds : IsInteger ds) (hf : IsFraction f fs)
    (he : IsExponent e x) :
    (∃ c ∈ sg ++ (ds ++ (f ++ e)), c ∈ (".eE" : Text)) ↔ ¬ (f = [] ∧ e = []) := by
  constructor
  · rintro ⟨c, hc, hmark⟩ ⟨rfl, rfl⟩
    rw [List.append_nil, List.append_nil] at hc
    rcases List.mem_append.1 hc with hc | hc
    · cases hsg with
      | none => exact nomatch hc
      | minus =>
        rw [List.mem_singleton.1 hc] at hmark
        exact absurd hmark (by decide)
    · have hdigit : ∀ c ∈ (".eE" : Text), ¬ c.IsDigit := by decide
      exact hdigit c hmark (hds.areDigits.2 c hc)
  · intro hparts
    cases hf with
    | digits => exact ⟨'.', by simp, by decide⟩
    | none =>
      cases he with
      | none => exact absurd ⟨rfl, rfl⟩ hparts
      | @digits mark _ _ _ hmark =>
        refine ⟨mark, by simp, ?_⟩
        rcases hmark with rfl | rfl <;> decide

variable {v : Number}

/-- The parts of a literal without a point or a mark make the integer that it is, -/
theorem numberOf_of_no_mark (hsg : IsMinus sg negative) (hds : IsInteger ds) (hf : IsFraction f fs)
    (he : IsExponent e x) (h : Grammar.numberOf sg ds f (lowered e) = .ok v)
    (hnone : ∀ c ∈ sg ++ (ds ++ (f ++ e)), c ∉ (".eE" : Text)) :
    ∃ i, Numeral.toInt (sg ++ (ds ++ (f ++ e))) = .ok i ∧ v = .int i := by
  have hparts : f = [] ∧ e = [] := by
    by_contra hparts
    obtain ⟨c, hc, hmark⟩ := (exists_mark_iff hsg hds hf he).2 hparts
    exact hnone c hc hmark
  obtain ⟨rfl, rfl⟩ := hparts
  rw [List.append_nil, List.append_nil]
  simp only [lowered, Grammar.numberOf, and_self, if_true, Number.ofInteger] at h
  cases hi : Numeral.toInt (sg ++ ds) with
  | ok i =>
    rw [hi] at h
    exact ⟨i, rfl, (Except.ok.inj h).symm⟩
  | error fault =>
    rw [hi] at h
    cases h

/-- and those of any other the floating number. -/
theorem numberOf_of_mark (hsg : IsMinus sg negative) (hds : IsInteger ds) (hf : IsFraction f fs)
    (he : IsExponent e x) (h : Grammar.numberOf sg ds f (lowered e) = .ok v)
    (hsome : ∃ c ∈ sg ++ (ds ++ (f ++ e)), c ∈ (".eE" : Text)) :
    ∃ y, Decimal.ofText? (sg ++ (ds ++ (f ++ e))) = Option.some y ∧ v = .float (.ofDecimal y) := by
  have hparts := (exists_mark_iff hsg hds hf he).1 hsome
  obtain ⟨hne, hdigits⟩ := hds.areDigits
  refine ⟨_, Decimal.ofText?_append hsg.isSign hne hdigits hf he, ?_⟩
  rw [numberOf_decimal hsg hds hf he hparts, numberValue, if_neg hparts] at h
  exact (Except.ok.inj h).symm

end

variable {ρ : Type → Type} {rules : Rules ρ} {verbose : Bool} {c d : Cursor} {v : Number}

/-- What the parsers of the parts give, one behind another. -/
def ReadParts (rules : Rules ρ) (verbose : Bool) (c d : Cursor) (sg ds f e : Text) : Prop :=
  ∃ c₁ c₂ c₃, (minusSign (ρ := ρ)).Succeeds rules verbose c sg c₁ ∧
    (Grammar.integerPart (ρ := ρ)).Succeeds rules verbose c₁ ds c₂ ∧
    (option [] (Grammar.fraction (ρ := ρ))).Succeeds rules verbose c₂ f c₃ ∧
    (option [] (Grammar.exponent (ρ := ρ))).Succeeds rules verbose c₃ e d

theorem numberLiteral_parts (h : (Grammar.numberLiteral (ρ := ρ)).Succeeds rules verbose c v d) :
    ∃ sg ds f e, ReadParts rules verbose c d sg ds f e ∧ Grammar.numberOf sg ds f e = .ok v := by
  obtain ⟨sg, c₁, hsg, h⟩ := h.of_bind
  obtain ⟨ds, c₂, hds, h⟩ := h.of_bind
  obtain ⟨f, c₃, hf, h⟩ := h.of_bind
  obtain ⟨e, he, hv⟩ := h.of_tryMap
  exact ⟨sg, ds, f, e, ⟨c₁, c₂, c₃, hsg, hds, hf, he⟩, hv⟩

theorem ReadParts.taken {sg ds f e : Text} (h : ReadParts rules verbose c d sg ds f e) :
    ∃ negative fs r x, IsMinus sg negative ∧ IsInteger ds ∧ IsFraction f fs ∧ IsExponent r x ∧
      e = lowered r ∧ c.Leads (sg ++ (ds ++ (f ++ r))) d := by
  obtain ⟨c₁, c₂, c₃, hsg, hds, hf, he⟩ := h
  obtain ⟨_, hsign, h₁⟩ := hsg.took
  obtain ⟨_, hinteger, h₂⟩ := hds.took
  obtain ⟨_, hfraction, h₃⟩ := hf.took
  obtain ⟨r, hexponent, h₄⟩ := he.took
  obtain ⟨rfl, negative, hsg⟩ := minusSign_took hsign
  obtain ⟨rfl, hds⟩ := (integerPart_reads _).sound hinteger
  obtain ⟨rfl, fs, hf⟩ := fraction_took hfraction
  obtain ⟨rfl, x, he⟩ := exponent_took hexponent
  exact ⟨negative, fs, r, x, hsg, hds, hf, he, rfl, h₁.trans (h₂.trans (h₃.trans h₄))⟩

/-! ### Literals -/

/-- A number is read wherever a match stands, and it is the longest match that is taken: a point
without digits and a mark without digits are left. The depth that readings have is enough. -/
theorem numberLiteral_lexes (rules : Rules ρ) (verbose : Bool) (c : Cursor)
    (hruns : DigitRunsWithin Numeral.digitLimit c.unread) :
    let p : Parser ρ Number := Grammar.numberLiteral
    let r := p.parse rules verbose c
    p.Reaches rules verbose c r ∧
      ((∃ v d, r.result = .success v d) ↔ ∃ w, w <+: c.unread ∧ w ∈ numberPattern.matches') ∧
      (∀ a, r.result ≠ .abort a) ∧
      ∀ v d, r.result = .success v d → ∃ w,
        (w <+: c.unread ∧ w ∈ numberPattern.matches' ∧
          ∀ u, u <+: c.unread → u ∈ numberPattern.matches' → u <+: w) ∧
        d = c.skip w ∧
        ((∀ x ∈ w, x ∉ (".eE" : Text)) → ∃ i, Numeral.toInt w = .ok i ∧ v = .int i) ∧
        ((∃ x ∈ w, x ∈ (".eE" : Text)) →
          ∃ y, Decimal.ofText? w = Option.some y ∧ v = .float (.ofDecimal y)) ∧
        ∃ sg ds f e, ReadParts rules verbose c d sg ds f e ∧
          Grammar.numberOf sg ds f e = .ok v ∧ sg ++ (ds ++ (f ++ e)) = w.map lowerMark := by
  intro p r
  have hreaches : p.Reaches rules verbose c r :=
    (guarded_numberLiteral trivial).reaches_run (by decide) c
  have hlongest : p.ReadsLongest rules verbose IsNumber c.unread :=
    (numberLiteral_reads hruns).longest (numberLiteral_covers hruns)
  obtain ⟨r', hr', hrec⟩ := hlongest.reaches rfl
  obtain rfl : r = r' := hreaches.unique hr'
  refine ⟨hreaches, ?_, hrec.ne_abort, fun v d hv => ?_⟩
  · simp only [hrec.success_iff, mem_numberPattern]
    exact exists_congr fun w => exists_and_left
  obtain ⟨sg, ds, f, e, hparts, hvalue⟩ := numberLiteral_parts ⟨nestingLimit, hv⟩
  obtain ⟨negative, fs, e, x, hsg, hds, hf, he, rfl, hlead⟩ := hparts.taken
  obtain ⟨w, rfl, hw⟩ := hrec.longest v d hv
  have htaken : w = sg ++ (ds ++ (f ++ e)) := by
    obtain ⟨u, hu⟩ := hw.within
    have hsplit := hlead.1
    rw [Cursor.unread_skip hu.symm, ← hu] at hsplit
    exact List.append_cancel_right hsplit
  subst htaken
  refine ⟨_, ⟨hw.within, mem_numberPattern.2 ⟨v, (hw.meaning v).2 rfl⟩, fun u hu hmatch => ?_⟩, rfl,
    numberOf_of_no_mark hsg hds hf he hvalue, numberOf_of_mark hsg hds hf he hvalue,
    sg, ds, f, _, hparts, hvalue, parts_eq_map hsg hds hf he⟩
  obtain ⟨v', hv'⟩ := mem_numberPattern.1 hmatch
  exact hw.longest u v' hu hv'

theorem numberLiteral_lexes_unfinished_exponent :
    let t : Text := "-12.5e+"
    let c : Cursor := .start t []
    DigitRunsWithin Numeral.digitLimit t ∧
      ((Grammar.numberLiteral (ρ := Rule)).parse Json.rules false c).result =
        .success (.float (.ofDecimal ⟨true, 125, -1⟩)) (c.skip "-12.5") ∧
      ("-12.5" : Text) ∈ numberPattern.matches' ∧
      ∀ u, u <+: t → u ∈ numberPattern.matches' → u <+: ("-12.5" : Text) := by
  intro t c
  have hruns : DigitRunsWithin Numeral.digitLimit c.unread := .of_length_le (by decide +kernel)
  have hresult : ((Grammar.numberLiteral (ρ := Rule)).parse Json.rules false c).result =
      .success (.float (.ofDecimal ⟨true, 125, -1⟩)) (c.skip "-12.5") := by decide +kernel
  obtain ⟨-, -, -, hread⟩ := numberLiteral_lexes Json.rules false c hruns
  obtain ⟨w, ⟨hw, hmatch, hlongest⟩, hskip, -⟩ := hread _ _ hresult
  have hlength : ("-12.5" : Text).length = w.length :=
    Nat.add_left_cancel (congrArg Cursor.offset hskip)
  have hprefix : ("-12.5" : Text) <+: t := by decide
  rw [Cursor.unread_start] at hw hlongest hruns
  obtain rfl := (List.prefix_of_prefix_length_le hprefix hw hlength.le).eq_of_length hlength
  exact ⟨hruns, hresult, hmatch, hlongest⟩

end Json
end Descent
