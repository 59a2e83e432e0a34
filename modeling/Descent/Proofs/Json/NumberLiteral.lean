import Descent.Proofs.Json.Language
import Descent.Proofs.LongestPrefix

/-!
# Number literals

A number literal is read part by part, and every part but the integer may be empty. A part takes
what it can: `Extends` compares what it takes with a part of its kind that the text starts with.
-/

namespace Descent
namespace Json

open Descent.Parser

variable {ρ : Type → Type} {rules : Rules ρ} {verbose : Bool} {t : Text}

/-! ### Parts -/

def minusSign : Parser ρ Text := option [] ((char '-').map fun c => [c])

/-- An exponent as the parser gives it, behind a lower-case mark. -/
def lowered : Text → Text
  | [] => []
  | _ :: t => 'e' :: t

theorem IsMinus.isSign {sg : Text} {negative : Bool} (h : IsMinus sg negative) :
    IsSign sg negative := by
  cases h with
  | none => exact .none
  | minus => exact .minus

theorem isExponent_lowered {e : Text} {x : Int} (h : IsExponent e x) : IsExponent (lowered e) x := by
  cases h with
  | none => exact .none
  | digits _ hsg hne hds => exact .digits (.inl rfl) hsg hne hds

theorem lowered_eq_nil_iff (e : Text) : lowered e = [] ↔ e = [] := by
  cases e <;> simp [lowered]

section
variable {sg ds f fs e : Text} {negative : Bool} {x : Int}

/-- With a fraction or an exponent a number may have any number of digits. -/
theorem numberOf_decimal (hsg : IsMinus sg negative) (hds : IsInteger ds) (hf : IsFraction f fs)
    (he : IsExponent e x) (h : ¬ (f = [] ∧ e = [])) :
    Grammar.numberOf sg ds f (lowered e) = .ok (numberValue negative ds f e fs x) := by
  obtain ⟨hne, hall⟩ := hds.areDigits
  have hparts : ¬ (f = [] ∧ lowered e = []) := fun hp => h ⟨hp.1, (lowered_eq_nil_iff e).1 hp.2⟩
  rw [Grammar.numberOf, if_neg hparts, numberValue, if_neg h]
  rw [List.append_assoc, List.append_assoc]
  exact Number.ofDecimal_append hsg.isSign hne hall hf (isExponent_lowered he)

theorem numberOf_eq (hsg : IsMinus sg negative) (hds : IsInteger ds)
    (hlen : ds.length ≤ Numeral.digitLimit) (hf : IsFraction f fs) (he : IsExponent e x) :
    Grammar.numberOf sg ds f (lowered e) = .ok (numberValue negative ds f e fs x) := by
  by_cases h : f = [] ∧ e = []
  · obtain ⟨hne, hall⟩ := hds.areDigits
    have hparts : f = [] ∧ lowered e = [] := ⟨h.1, (lowered_eq_nil_iff e).2 h.2⟩
    rw [Grammar.numberOf, if_pos hparts, numberValue, if_pos h]
    exact Number.ofInteger_append hsg.isSign hne hall hlen
  · exact numberOf_decimal hsg hds hf he h

theorem numberOf_tooLong (hsg : IsMinus sg negative) (hds : IsInteger ds)
    (hlen : Numeral.digitLimit < ds.length) :
    Grammar.numberOf sg ds [] [] = .error .numeralTooLong :=
  Number.ofInteger_tooLong hsg.isSign hds.areDigits.1 hds.areDigits.2 hlen

/-- The parts of a number make a number, unless it is an integer with too many digits. -/
theorem numberOf_error (hsg : IsMinus sg negative) (hds : IsInteger ds) (hf : IsFraction f fs)
    (he : IsExponent e x) {fault : Fault}
    (h : Grammar.numberOf sg ds f (lowered e) = .error fault) : fault = .numeralTooLong := by
  by_cases hparts : f = [] ∧ e = []
  · obtain ⟨rfl, rfl⟩ := hparts
    by_cases hlen : ds.length ≤ Numeral.digitLimit
    · exact nomatch (numberOf_eq hsg hds hlen .none .none).symm.trans h
    · exact Except.error.inj (h.symm.trans (numberOf_tooLong hsg hds (Nat.lt_of_not_le hlen)))
  · exact nomatch (numberOf_decimal hsg hds hf he hparts).symm.trans h

end

/-! ### What the parts take -/

theorem minusSign_answers {sg : Text} {negative : Bool} (h : IsMinus sg negative)
    (ht : ('-' : CodePoint) ∉ t.head?) :
    (minusSign (ρ := ρ)).Answers rules verbose (sg ++ t) (.took sg sg) := by
  cases h with
  | none => exact .option_missed [] ((Misses.char ht).map _)
  | minus => exact ((Answers.char '-' t).map _).option []

variable (rules verbose) in
theorem minusSign_total (t : Text) :
    ∃ sg negative u, t = sg ++ u ∧ IsMinus sg negative ∧
      (minusSign (ρ := ρ)).Answers rules verbose t (.took sg sg) := by
  by_cases ht : ('-' : CodePoint) ∈ t.head?
  · obtain ⟨u, rfl⟩ := List.head?_eq_some_iff.1 ht
    exact ⟨['-'], true, u, rfl, .minus, ((Answers.char '-' u).map _).option []⟩
  · exact ⟨[], false, t, rfl, .none, minusSign_answers .none ht⟩

theorem nonZero_answers {d : CodePoint} (hd : d.IsDigit) (hne : d ≠ '0') (t : Text) :
    (Grammar.nonZero (ρ := ρ)).Answers rules verbose (d :: t) (.took d [d]) :=
  (Answers.satisfy (decide_eq_true hd) t).filter_true (decide_eq_true hne)

theorem integerPart_zero (t : Text) :
    (Grammar.integerPart (ρ := ρ)).Answers rules verbose ('0' :: t) (.took ['0'] ['0']) :=
  ((Answers.char '0' t).map _).orElse nofun

theorem integerPart_nonZero {d : CodePoint} {ds : Text} (hd : d.IsDigit) (hne : d ≠ '0')
    (hds : AreDigits ds) (ht : Stops (·.IsDigit) t) :
    (Grammar.integerPart (ρ := ρ)).Answers rules verbose (d :: (ds ++ t))
      (.took (d :: ds) (d :: ds)) := by
  refine .orElse_missed ((Misses.char fun h => hne (Option.some.inj h)).map _) ?_
  refine (nonZero_answers hd hne (ds ++ t)).bind (s := [d]) (b := .took (d :: ds) ds) ?_
  exact (Answers.many_satisfy (fun x hx => decide_eq_true (hds x hx)) ht).map _

theorem integerPart_misses (ht : Stops (·.IsDigit) t) :
    (Grammar.integerPart (ρ := ρ)).Misses rules verbose t := by
  refine Misses.orElse ((Misses.char fun h => ?_).map _) (Misses.satisfy ht).filter.bind
  exact absurd (ht _ h) (by decide)

theorem integerPart_reads (t : Text) :
    (Grammar.integerPart (ρ := ρ)).Reads rules verbose (fun s v => v = s ∧ IsInteger s) t := by
  cases t with
  | nil => exact .missed (integerPart_misses Stops.nil)
  | cons d t =>
    by_cases hd : d.IsDigit
    · by_cases hzero : d = '0'
      · subst hzero
        exact .took (s := ['0']) rfl ⟨rfl, .zero⟩ (integerPart_zero t)
      · obtain ⟨ds, u, rfl, hds, hu⟩ := exists_digits t
        exact .took (s := d :: ds) rfl ⟨rfl, .nonZero hd hzero hds⟩
          (integerPart_nonZero hd hzero hds hu)
    · exact .missed (integerPart_misses (Stops.cons_iff.2 (decide_eq_false hd)))

theorem fraction_answers {ds : Text} (hne : ds ≠ []) (hds : AreDigits ds)
    (ht : Stops (·.IsDigit) t) :
    (Grammar.fraction (ρ := ρ)).Answers rules verbose ('.' :: (ds ++ t))
      (.took ('.' :: ds) ('.' :: ds)) :=
  (Answers.char '.' (ds ++ t)).keepRight (s := ['.']) (b := .took (('.' : CodePoint) :: ds) ds)
    ((Answers.digits hne hds ht).map _)

theorem fraction_reads (t : Text) :
    (Grammar.fraction (ρ := ρ)).Reads rules verbose
      (fun s v => v = s ∧ ∃ ds, s = ('.' : CodePoint) :: ds ∧ IsFraction s ds) t := by
  refine (Reads.char '.' t).keepRight ?_
  rintro _ _ u - ⟨rfl, -⟩
  refine (Reads.digits u).map ?_
  rintro _ ds ⟨rfl, hne, hds⟩
  exact ⟨rfl, ds, rfl, .digits hne hds⟩

def exponentSign : Parser ρ Text :=
  firstOf [(char '+').map fun c => [c], (char '-').map fun c => [c], .pure []]

theorem exponentSign_answers {sg : Text} {negative : Bool} (h : IsSign sg negative)
    (hplus : ('+' : CodePoint) ∉ t.head?) (hminus : ('-' : CodePoint) ∉ t.head?) :
    (exponentSign (ρ := ρ)).Answers rules verbose (sg ++ t) (.took sg sg) := by
  cases h with
  | plus => exact Answers.firstOf [] _ nofun ((Answers.char '+' t).map _) (.inl nofun)
  | minus =>
    refine Answers.firstOf [_] _ ?_ ((Answers.char '-' t).map _) (.inl nofun)
    refine List.forall_mem_singleton.2 ((Misses.char fun h => ?_).map _)
    exact absurd (Option.some.inj h) (by decide)
  | none =>
    refine Answers.firstOf [_, _] [] ?_ (.pure [] t) (.inr rfl)
    exact List.forall_mem_cons.2 ⟨(Misses.char hplus).map _,
      List.forall_mem_singleton.2 ((Misses.char hminus).map _)⟩

theorem exponentSign_reads (t : Text) :
    (exponentSign (ρ := ρ)).Reads rules verbose (fun s v => v = s ∧ ∃ n, IsSign s n) t := by
  refine Reads.firstOf (List.cons_ne_nil _ _) ?_
  refine List.forall_mem_cons.2 ⟨(Reads.char '+' t).map ?_,
    List.forall_mem_cons.2 ⟨(Reads.char '-' t).map ?_, List.forall_mem_singleton.2 ?_⟩⟩
  · rintro _ _ ⟨rfl, rfl⟩; exact ⟨rfl, false, .plus⟩
  · rintro _ _ ⟨rfl, rfl⟩; exact ⟨rfl, true, .minus⟩
  · exact .pure ⟨rfl, false, .none⟩

theorem exponentMark_answers {mark : CodePoint} (h : mark = 'e' ∨ mark = 'E') (t : Text) :
    ((char 'e').orElse (char 'E') : Parser ρ CodePoint).Answers rules verbose (mark :: t)
      (.took mark [mark]) := by
  rcases h with rfl | rfl
  · exact (Answers.char 'e' t).orElse nofun
  · refine .orElse_missed (Misses.char fun h => ?_) (Answers.char 'E' t)
    exact absurd (Option.some.inj h) (by decide)

theorem exponent_answers {mark : CodePoint} {sg ds : Text} {negative : Bool}
    (hmark : mark = 'e' ∨ mark = 'E') (hsg : IsSign sg negative) (hne : ds ≠ [])
    (hds : AreDigits ds) (ht : Stops (·.IsDigit) t) :
    (Grammar.exponent (ρ := ρ)).Answers rules verbose (mark :: (sg ++ (ds ++ t)))
      (.took ('e' :: (sg ++ ds)) (mark :: (sg ++ ds))) := by
  have hhead {c : CodePoint} (hc : ¬ c.IsDigit) : c ∉ (ds ++ t).head? := by
    cases ds with
    | nil => exact absurd rfl hne
    | cons d ds => exact fun h => hc (Option.some.inj h ▸ hds d List.mem_cons_self)
  refine (exponentMark_answers hmark _).keepRight (s := [mark])
    (b := .took (('e' : CodePoint) :: (sg ++ ds)) (sg ++ ds)) ?_
  refine (exponentSign_answers hsg (hhead (by decide)) (hhead (by decide))).bind
    (b := .took (('e' : CodePoint) :: (sg ++ ds)) ds) ?_
  exact (Answers.digits hne hds ht).map _

theorem exponent_reads (t : Text) :
    (Grammar.exponent (ρ := ρ)).Reads rules verbose (fun s v => v = lowered s ∧
      ∃ mark u x, s = mark :: u ∧ (mark = 'e' ∨ mark = 'E') ∧ IsExponent s x) t := by
  have hmark : ((char 'e').orElse (char 'E') : Parser ρ CodePoint).Reads rules verbose
      (fun s _ => ∃ mark, s = [mark] ∧ (mark = 'e' ∨ mark = 'E')) t := by
    refine ((Reads.char 'e' t).mono ?_).orElse ((Reads.char 'E' t).mono ?_)
    · rintro _ _ ⟨rfl, -⟩; exact ⟨'e', rfl, .inl rfl⟩
    · rintro _ _ ⟨rfl, -⟩; exact ⟨'E', rfl, .inr rfl⟩
  refine hmark.keepRight ?_
  rintro _ _ t - ⟨mark, rfl, hmark⟩
  refine (exponentSign_reads t).bind ?_
  rintro _ sg t - ⟨rfl, n, hsg⟩
  refine (Reads.digits t).map ?_
  rintro _ ds ⟨rfl, hne, hds⟩
  have he := IsExponent.digits hmark hsg hne hds
  exact ⟨rfl, mark, _, _, rfl, hmark, he⟩

/-! ### Comparison with parts of the text -/

/-- `r` is `s`, or goes on behind it with a character of `C`. -/
def Extends (C : CodePoint → Prop) (s r : Text) : Prop := r = s ∨ ∃ x u, r = s ++ x :: u ∧ C x

theorem Extends.digits {C : CodePoint → Prop} (hC : ∀ x, x.IsDigit → C x) (s : Text) {ds : Text}
    (h : AreDigits ds) : Extends C s (s ++ ds) := by
  cases ds with
  | nil => exact .inl (List.append_nil s)
  | cons d ds => exact .inr ⟨d, ds, rfl, hC d (h d List.mem_cons_self)⟩

variable (rules verbose) in
theorem integerPart_takes {ds : Text} (h : IsInteger ds) (t : Text) :
    ∃ r, (Grammar.integerPart (ρ := ρ)).Answers rules verbose (ds ++ t) (.took r r) ∧
      IsInteger r ∧ Extends CodePoint.IsDigit ds r := by
  cases h with
  | zero => exact ⟨['0'], integerPart_zero t, .zero, .inl rfl⟩
  | @nonZero d ds hd hne hds =>
    obtain ⟨ds', u, rfl, hds', hu⟩ := exists_digits t
    have hall : AreDigits (ds ++ ds') := List.forall_mem_append.2 ⟨hds, hds'⟩
    refine ⟨d :: (ds ++ ds'), ?_, .nonZero hd hne hall, .digits (fun _ hx => hx) (d :: ds) hds'⟩
    have htext : d :: ds ++ (ds' ++ u) = d :: (ds ++ ds' ++ u) := by simp
    rw [htext]
    exact integerPart_nonZero hd hne hall hu

variable (rules verbose) in
theorem fraction_takes {f fs : Text} (h : IsFraction f fs) (t : Text) :
    ∃ r rs, (option [] (Grammar.fraction (ρ := ρ))).Answers rules verbose (f ++ t) (.took r r) ∧
      IsFraction r rs ∧ Extends (fun x => x.IsDigit ∨ x = '.') f r := by
  cases h with
  | none =>
    cases fraction_reads t with
    | missed h => exact ⟨[], [], .option_missed [] h, .none, .inl rfl⟩
    | took ht hL h =>
      rcases hL with ⟨rfl, ds, rfl, hf⟩
      exact ⟨_, ds, h.option [], hf, .inr ⟨'.', ds, rfl, .inr rfl⟩⟩
  | digits hne hfs =>
    obtain ⟨ds, u, rfl, hds, hu⟩ := exists_digits t
    have hall : AreDigits (fs ++ ds) := List.forall_mem_append.2 ⟨hfs, hds⟩
    have hne' : fs ++ ds ≠ [] := by simp [hne]
    have htext : (('.' : CodePoint) :: fs) ++ (ds ++ u) = ('.' : CodePoint) :: (fs ++ ds ++ u) := by
      simp
    rw [htext]
    exact ⟨_, _, (fraction_answers hne' hall hu).option [], .digits hne' hall,
      .digits (fun _ hx => .inl hx) ('.' :: fs) hds⟩

variable (rules verbose) in
theorem exponent_takes {e : Text} {x : Int} (h : IsExponent e x) (t : Text) :
    ∃ r y, (option [] (Grammar.exponent (ρ := ρ))).Answers rules verbose (e ++ t)
        (.took (lowered r) r) ∧
      IsExponent r y ∧ Extends (fun x => x.IsDigit ∨ x = 'e' ∨ x = 'E') e r := by
  cases h with
  | none =>
    cases exponent_reads t with
    | missed h => exact ⟨[], 0, .option_missed [] h, .none, .inl rfl⟩
    | took ht hL h =>
      rcases hL with ⟨rfl, mark, u, y, rfl, hmark, he⟩
      exact ⟨_, y, h.option [], he, .inr ⟨mark, u, rfl, .inr hmark⟩⟩
  | @digits mark sg ds negative hmark hsg hne hds =>
    obtain ⟨ds', u, rfl, hds', hu⟩ := exists_digits t
    have hall : AreDigits (ds ++ ds') := List.forall_mem_append.2 ⟨hds, hds'⟩
    have hne' : ds ++ ds' ≠ [] := by simp [hne]
    have hext := Extends.digits (C := fun x => x.IsDigit ∨ x = 'e' ∨ x = 'E')
      (fun _ hx => .inl hx) (mark :: (sg ++ ds)) hds'
    have hword : mark :: (sg ++ ds) ++ ds' = mark :: (sg ++ (ds ++ ds')) := by simp
    rw [hword] at hext
    refine ⟨_, _, Answers.option [] ?_, .digits hmark hsg hne' hall, hext⟩
    have htext : mark :: (sg ++ ds) ++ (ds' ++ u) = mark :: (sg ++ (ds ++ ds' ++ u)) := by simp
    rw [htext]
    exact exponent_answers hmark hsg hne' hall hu

/-! ### Literals -/

section
variable {sg ds f e : Text}
  (hsign : (minusSign (ρ := ρ)).Answers rules verbose (sg ++ (ds ++ (f ++ (e ++ t)))) (.took sg sg))
  (hinteger : (Grammar.integerPart (ρ := ρ)).Answers rules verbose (ds ++ (f ++ (e ++ t)))
    (.took ds ds))
  (hfraction : (option [] (Grammar.fraction (ρ := ρ))).Answers rules verbose (f ++ (e ++ t))
    (.took f f))
  (hexponent : (option [] (Grammar.exponent (ρ := ρ))).Answers rules verbose (e ++ t)
    (.took (lowered e) e))
include hsign hinteger hfraction hexponent

/-- A literal ends as the conversion of its parts does. -/
theorem numberLiteral_ends : (Grammar.numberLiteral (ρ := ρ)).Answers rules verbose
    (sg ++ (ds ++ (f ++ (e ++ t))))
    (((((Answer.took (lowered e) e).tryMap (Grammar.numberOf sg ds f)).behind f).behind ds).behind
      sg) :=
  hsign.bind (hinteger.bind (hfraction.bind (hexponent.tryMap (Grammar.numberOf sg ds f))))

/-- Parts that are taken one after another make up a literal. -/
theorem numberLiteral_of_parts {fs : Text} {negative : Bool} {x : Int}
    (hsg : IsMinus sg negative) (hds : IsInteger ds) (hlen : ds.length ≤ Numeral.digitLimit)
    (hf : IsFraction f fs) (he : IsExponent e x) :
    (Grammar.numberLiteral (ρ := ρ)).Answers rules verbose (sg ++ (ds ++ (f ++ (e ++ t))))
      (.took (numberValue negative ds f e fs x) (sg ++ (ds ++ (f ++ e)))) := by
  have hliteral := numberLiteral_ends hsign hinteger hfraction hexponent
  simp only [Answer.tryMap, numberOf_eq hsg hds hlen hf he] at hliteral
  exact hliteral

end

section
variable {sg ds f fs : Text} {negative : Bool}

/-- Behind a fraction an exponent is taken, or nothing. -/
theorem numberLiteral_of_fraction (hsg : IsMinus sg negative) (hds : IsInteger ds)
    (hlen : ds.length ≤ Numeral.digitLimit) (hf : IsFraction f fs)
    (hsign : (minusSign (ρ := ρ)).Answers rules verbose (sg ++ (ds ++ (f ++ t))) (.took sg sg))
    (hinteger : (Grammar.integerPart (ρ := ρ)).Answers rules verbose (ds ++ (f ++ t))
      (.took ds ds))
    (hfraction : (option [] (Grammar.fraction (ρ := ρ))).Answers rules verbose (f ++ t)
      (.took f f)) :
    ∃ v e, e <+: t ∧ IsNumber (sg ++ (ds ++ (f ++ e))) v ∧
      (Grammar.numberLiteral (ρ := ρ)).Answers rules verbose (sg ++ (ds ++ (f ++ t)))
        (.took v (sg ++ (ds ++ (f ++ e)))) := by
  obtain ⟨e, x, hexponent, he, -⟩ := exponent_takes rules verbose .none t
  obtain ⟨u, rfl⟩ := hexponent.prefix_of_took
  exact ⟨_, e, List.prefix_append e u, .intro hsg hds hf he,
    numberLiteral_of_parts hsign hinteger hfraction hexponent hsg hds hlen hf he⟩

/-- Behind an integer a literal cannot fail any more. -/
theorem numberLiteral_of_integer (hsg : IsMinus sg negative) (hds : IsInteger ds)
    (hlen : ds.length ≤ Numeral.digitLimit)
    (hsign : (minusSign (ρ := ρ)).Answers rules verbose (sg ++ (ds ++ t)) (.took sg sg))
    (hinteger : (Grammar.integerPart (ρ := ρ)).Answers rules verbose (ds ++ t) (.took ds ds)) :
    ∃ v r, r <+: t ∧ IsNumber (sg ++ (ds ++ r)) v ∧
      (Grammar.numberLiteral (ρ := ρ)).Answers rules verbose (sg ++ (ds ++ t))
        (.took v (sg ++ (ds ++ r))) := by
  obtain ⟨f, fs, hfraction, hf, -⟩ := fraction_takes rules verbose .none t
  obtain ⟨u, rfl⟩ := hfraction.prefix_of_took
  obtain ⟨v, e, he, hv, h⟩ :=
    numberLiteral_of_fraction hsg hds hlen hf hsign hinteger hfraction
  exact ⟨v, f ++ e, (List.prefix_append_right_inj f).2 he, hv, h⟩

end

theorem numberLiteral_reads (hruns : DigitRunsWithin Numeral.digitLimit t) :
    (Grammar.numberLiteral (ρ := ρ)).Reads rules verbose IsNumber t := by
  obtain ⟨sg, negative, u, rfl, hsg, hsign⟩ := minusSign_total rules verbose t
  cases integerPart_reads u with
  | missed h => exact .missed (hsign.bind_misses h.bind)
  | took ht hL hinteger =>
    rcases hL with ⟨rfl, hds⟩
    subst ht
    have hlen := hruns.right.left _ List.infix_rfl hds.areDigits.2
    obtain ⟨v, r, ⟨u, rfl⟩, hv, h⟩ := numberLiteral_of_integer hsg hds hlen hsign hinteger
    exact .took (u := u) (by simp) hv h

def goesOn (c : CodePoint) : Bool := c.IsDigit ∨ c = '.' ∨ c = 'e' ∨ c = 'E'

section
variable {sg ds : Text} {negative : Bool} (hsg : IsMinus sg negative) (hds : IsInteger ds)
  (ht : Stops goesOn t)
include hsg hds ht

/-- Where nothing behind it goes on with a number, an integer ends as its conversion does. -/
theorem numberLiteral_integer_ends :
    (Grammar.numberLiteral (ρ := ρ)).Answers rules verbose (sg ++ (ds ++ t))
      (((Answer.took [] []).tryMap (Grammar.numberOf sg ds [])).behind (sg ++ ds)) := by
  have hminus : ('-' : CodePoint) ∉ (ds ++ t).head? := by
    cases hds with
    | zero => exact fun h => absurd (Option.some.inj h) (by decide)
    | nonZero hd => exact fun h => absurd (Option.some.inj h) (hd.ne (by decide))
  have hdigit : Stops (·.IsDigit) t := fun c hc => decide_eq_false fun h =>
    absurd (ht c hc) (by simp [goesOn, h])
  have hinteger : (Grammar.integerPart (ρ := ρ)).Answers rules verbose (ds ++ t)
      (.took ds ds) := by
    cases hds with
    | zero => exact integerPart_zero t
    | nonZero hd hne hds => exact integerPart_nonZero hd hne hds hdigit
  have hfraction : (Grammar.fraction (ρ := ρ)).Misses rules verbose t :=
    (Misses.char (ht.not_mem_head (by decide))).bind
  have hexponent : (Grammar.exponent (ρ := ρ)).Misses rules verbose t :=
    (Misses.orElse (Misses.char (ht.not_mem_head (by decide)))
      (Misses.char (ht.not_mem_head (by decide)))).bind
  have hliteral := numberLiteral_ends (f := []) (e := []) (minusSign_answers hsg hminus) hinteger
    (.option_missed [] hfraction) (.option_missed [] hexponent)
  rw [← Answer.behind_append ds [], List.append_nil, ← Answer.behind_append] at hliteral
  exact hliteral

theorem numberLiteral_integer (hlen : ds.length ≤ Numeral.digitLimit) :
    (Grammar.numberLiteral (ρ := ρ)).Answers rules verbose (sg ++ (ds ++ t))
      (.took (.int (if negative then -(Numeral.toNat ds : Int) else Numeral.toNat ds))
        (sg ++ ds)) := by
  have hliteral : (Grammar.numberLiteral (ρ := ρ)).Answers rules verbose _ _ :=
    numberLiteral_integer_ends hsg hds ht
  have hnumber : Grammar.numberOf sg ds [] [] = .ok _ := numberOf_eq hsg hds hlen .none .none
  simpa [Answer.tryMap, Answer.behind, hnumber, numberValue] using hliteral

theorem numberLiteral_tooLong (hlen : Numeral.digitLimit < ds.length) :
    (Grammar.numberLiteral (ρ := ρ)).Answers rules verbose (sg ++ (ds ++ t))
      (.stopped (.fault .numeralTooLong)) := by
  have hliteral : (Grammar.numberLiteral (ρ := ρ)).Answers rules verbose _ _ :=
    numberLiteral_integer_ends hsg hds ht
  simp only [Answer.tryMap, numberOf_tooLong hsg hds hlen] at hliteral
  exact hliteral

end

theorem numberLiteral_covers (hruns : DigitRunsWithin Numeral.digitLimit t) :
    (Grammar.numberLiteral (ρ := ρ)).Covers rules verbose IsNumber goesOn t := by
  intro s t v ht h
  subst ht
  suffices ∃ w r, (Grammar.numberLiteral (ρ := ρ)).Answers rules verbose (s ++ t) (.took w r) ∧
      (r = s ∧ w = v ∨ ∃ y u, r = s ++ y :: u ∧ goesOn y = true) by
    obtain ⟨w, r, hr, ⟨rfl, rfl⟩ | ⟨y, u, rfl, hy⟩⟩ := this
    · exact ⟨w, r, hr, List.prefix_rfl, fun _ => rfl, fun _ => rfl⟩
    · refine ⟨w, _, hr, List.prefix_append s _, fun heq => ?_, fun hu => ?_⟩
      · exact absurd heq (by simp)
      · exact absurd hu (not_stops_behind hr.prefix_of_took hy)
  rcases h with @⟨sg, ds, f, fs, e, negative, x, hsg, hds, hf, he⟩
  have htext : sg ++ (ds ++ (f ++ e)) ++ t = sg ++ (ds ++ (f ++ (e ++ t))) := by simp
  have hhead : ('-' : CodePoint) ∉ (ds ++ (f ++ (e ++ t))).head? := by
    intro h
    cases hds with
    | zero => exact absurd (Option.some.inj h) (by decide)
    | nonZero hd => exact absurd (Option.some.inj h) (hd.ne (by decide))
  rw [htext] at hruns ⊢
  have hsign : (minusSign (ρ := ρ)).Answers rules verbose _ _ := minusSign_answers hsg hhead
  obtain ⟨ds', hinteger, hds', hext⟩ := integerPart_takes rules verbose hds (f ++ (e ++ t))
  have hlen : ds'.length ≤ Numeral.digitLimit :=
    hruns.right _ hinteger.prefix_of_took.isInfix hds'.areDigits.2
  -- The cases are the first part that takes more than the number has of it. The parts behind it are
  -- empty in the number then.
  rcases hext with rfl | ⟨y, r, rfl, hy⟩
  · obtain ⟨f', fs', hfraction, hf', hext⟩ := fraction_takes rules verbose hf (e ++ t)
    rcases hext with rfl | ⟨y, r, rfl, hy⟩
    · obtain ⟨e', x', hexponent, he', hext⟩ := exponent_takes rules verbose he t
      rcases hext with rfl | ⟨y, r, rfl, hy⟩
      · exact ⟨_, _, numberLiteral_of_parts hsign hinteger hfraction hexponent hsg hds hlen hf he,
          .inl ⟨rfl, rfl⟩⟩
      · obtain ⟨u, hu⟩ := hexponent.prefix_of_took
        rw [← hu] at hsign hinteger hfraction hexponent ⊢
        exact ⟨_, _, numberLiteral_of_parts hsign hinteger hfraction hexponent hsg hds hlen hf he',
          .inr ⟨y, r, by simp, decide_eq_true (hy.imp_right .inr)⟩⟩
    · obtain ⟨u, hu⟩ := hfraction.prefix_of_took
      have hnil : e = [] := he.eq_nil (u := r ++ u) (t := t) (by simpa using hu) hy
      rw [← hu] at hsign hinteger hfraction ⊢
      obtain ⟨w, e', -, -, h⟩ :=
        numberLiteral_of_fraction hsg hds hlen hf' hsign hinteger hfraction
      exact ⟨w, _, h, .inr ⟨y, r ++ e', by simp [hnil], decide_eq_true (hy.imp_right .inl)⟩⟩
  · obtain ⟨u, hu⟩ := hinteger.prefix_of_took
    have hrest : y :: (r ++ u) = f ++ (e ++ t) := by simpa using hu
    have hfnil : f = [] := hf.eq_nil hrest hy
    have henil : e = [] := he.eq_nil (u := r ++ u) (t := t) (by simpa [hfnil] using hrest) (.inl hy)
    rw [← hu] at hsign hinteger ⊢
    obtain ⟨w, r', -, -, h⟩ := numberLiteral_of_integer hsg hds' hlen hsign hinteger
    exact ⟨w, _, h, .inr ⟨y, r ++ r', by simp [hfnil, henil], decide_eq_true (.inl hy)⟩⟩

end Json
end Descent
