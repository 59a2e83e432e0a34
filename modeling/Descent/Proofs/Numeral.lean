import Descent.Number
import Descent.Proofs.Lexeme

/-!
# Numerals from their parts

A numeral is a sign, digits, a fraction and an exponent one after another, and it has the value that
its parts give it. The limit on the digits of an integer is met by every part of a text whose runs
of digits are within the limit (`DigitRunsWithin`).
-/

namespace Descent

open Descent.Parser (AreDigits)

/-- No more than `n` digits stand one after another. -/
def DigitRunsWithin (n : Nat) (t : Text) : Prop :=
  ∀ ds, ds <:+: t → AreDigits ds → ds.length ≤ n

namespace DigitRunsWithin

variable {n : Nat} {s t u : Text}

theorem of_length_le (h : t.length ≤ n) : DigitRunsWithin n t :=
  fun _ hds _ => Nat.le_trans hds.length_le h

theorem of_infix (hst : s <:+: t) (h : DigitRunsWithin n t) : DigitRunsWithin n s :=
  fun ds hds => h ds (hds.trans hst)

theorem left (h : DigitRunsWithin n (s ++ t)) : DigitRunsWithin n s :=
  h.of_infix (List.prefix_append s t).isInfix

theorem right (h : DigitRunsWithin n (s ++ t)) : DigitRunsWithin n t :=
  h.of_infix (List.suffix_append s t).isInfix

/-- No run of digits goes across a character that is no digit. -/
theorem join {c : CodePoint} (hc : ¬ c.IsDigit) (hs : DigitRunsWithin n s)
    (ht : DigitRunsWithin n t) : DigitRunsWithin n (s ++ c :: t) := by
  intro ds hds hdigits
  rcases List.infix_append_iff.1 hds with h | h | ⟨l, r, rfl, hl, hr⟩
  · exact hs ds h hdigits
  · rcases List.infix_cons_iff.1 h with h | h
    · rcases List.prefix_cons_iff.1 h with rfl | ⟨r, rfl, -⟩
      · exact Nat.zero_le n
      · exact absurd (hdigits c List.mem_cons_self) hc
    · exact ht ds h hdigits
  · rcases List.prefix_cons_iff.1 hr with rfl | ⟨r, rfl, -⟩
    · rw [List.append_nil] at hdigits ⊢
      exact hs l hl.isInfix hdigits
    · exact absurd (hdigits c (by simp)) hc

theorem nil : DigitRunsWithin n [] := of_length_le (Nat.zero_le n)

theorem cons {c : CodePoint} (hc : ¬ c.IsDigit) (ht : DigitRunsWithin n t) :
    DigitRunsWithin n (c :: t) := join hc nil ht

theorem append_of_not_digits (hs : DigitRunsWithin n s) (ht : ∀ c ∈ t, ¬ c.IsDigit) :
    DigitRunsWithin n (s ++ t) := by
  induction t generalizing s with
  | nil => rwa [List.append_nil]
  | cons c t ih =>
    have hrest : DigitRunsWithin n ([] ++ t) := ih nil fun d hd => ht d (List.mem_cons_of_mem c hd)
    exact join (ht c List.mem_cons_self) hs hrest

theorem of_not_digits_append (hs : ∀ c ∈ s, ¬ c.IsDigit) (ht : DigitRunsWithin n t) :
    DigitRunsWithin n (s ++ t) := by
  induction s with
  | nil => exact ht
  | cons c s ih =>
    exact cons (hs c List.mem_cons_self) (ih fun d hd => hs d (List.mem_cons_of_mem c hd))

end DigitRunsWithin

inductive IsSign : Text → Bool → Prop where
  | none : IsSign [] false
  | plus : IsSign ['+'] false
  | minus : IsSign ['-'] true

/-- A point with digits behind it, or nothing. -/
inductive IsFraction : Text → Text → Prop where
  | none : IsFraction [] []
  | digits {ds : Text} (hne : ds ≠ []) (h : AreDigits ds) : IsFraction ('.' :: ds) ds

/-- A mark with a sign, if any, and digits behind it, or nothing. -/
inductive IsExponent : Text → Int → Prop where
  | none : IsExponent [] 0
  | digits {mark : CodePoint} {sg ds : Text} {negative : Bool} (hmark : mark = 'e' ∨ mark = 'E')
      (hsg : IsSign sg negative) (hne : ds ≠ []) (h : AreDigits ds) :
      IsExponent (mark :: (sg ++ ds))
        (if negative then -(Numeral.toNat ds : Int) else Numeral.toNat ds)

theorem CodePoint.isDigit_iff_mem {c : CodePoint} : c.IsDigit ↔ c ∈ ("0123456789" : Text) := by
  have hall : ∀ n : Fin 10, ∀ h, (⟨48 + n, h⟩ : CodePoint) ∈ ("0123456789" : Text) := by decide
  constructor
  · rintro ⟨hlo, hhi⟩
    have hlo : 48 ≤ c.val := hlo
    have hhi : c.val ≤ 57 := hhi
    have hc : 48 + (c.val - 48) = c.val := by omega
    have hmem := hall ⟨c.val - 48, by omega⟩ (hc ▸ c.val_lt)
    simp only [hc] at hmem
    exact hmem
  · exact (by decide : ∀ c ∈ ("0123456789" : Text), c.IsDigit) c

theorem CodePoint.IsDigit.ne {c d : CodePoint} (hc : c.IsDigit) (hd : ¬ d.IsDigit) : c ≠ d := by
  rintro rfl
  exact hd hc

theorem IsFraction.stops {f fs u : Text} (h : IsFraction f fs) (hu : f = [] → Stops (·.IsDigit) u) :
    Stops (·.IsDigit) (f ++ u) := by
  cases h with
  | none => exact hu rfl
  | digits => exact Stops.cons_iff.2 (by decide)

theorem IsExponent.stops {e : Text} {x : Int} (h : IsExponent e x) : Stops (·.IsDigit) e := by
  cases h with
  | none => exact Stops.nil
  | digits hmark =>
    refine Stops.cons_iff.2 ?_
    rcases hmark with rfl | rfl <;> decide

/-- Where a digit comes next there is no fraction. -/
theorem IsFraction.eq_nil {f fs t u : Text} {y : CodePoint} (h : IsFraction f fs)
    (heq : y :: u = f ++ t) (hy : y.IsDigit) : f = [] := by
  cases h with
  | none => rfl
  | digits => exact absurd (List.cons.inj heq).1 (hy.ne (by decide))

/-- The longest fraction that a text starts with. -/
theorem exists_fraction (t : Text) : ∃ r rs u, t = r ++ u ∧ IsFraction r rs ∧
    (r ≠ [] → Stops (·.IsDigit) u) ∧ ∀ f fs, IsFraction f fs → f <+: t → f <+: r := by
  by_cases hpoint : ('.' : CodePoint) ∈ t.head?
  · obtain ⟨x, rfl⟩ := List.head?_eq_some_iff.1 hpoint
    obtain ⟨ds, u, rfl, hds, hu⟩ := Parser.exists_digits x
    have hlongest : ∀ fs, AreDigits fs → ('.' : CodePoint) :: fs <+: '.' :: (ds ++ u) →
        fs <+: ds := by
      rintro fs hfs ⟨y, hy⟩
      have hall : ∀ c ∈ fs, decide c.IsDigit = true := fun c hc => decide_eq_true (hfs c hc)
      exact Stops.prefix_of_append_eq hall hu (List.cons.inj hy).2
    by_cases hne : ds = []
    · subst hne
      refine ⟨[], [], _, rfl, .none, absurd rfl, ?_⟩
      intro f fs hf hft
      cases hf with
      | none => exact List.nil_prefix
      | digits hne hfs => exact absurd (List.prefix_nil.1 (hlongest fs hfs hft)) hne
    · refine ⟨'.' :: ds, ds, u, rfl, .digits hne hds, fun _ => hu, ?_⟩
      intro f fs hf hft
      cases hf with
      | none => exact List.nil_prefix
      | digits _ hfs => exact List.prefix_cons_inj _ |>.2 (hlongest fs hfs hft)
  · refine ⟨[], [], t, rfl, .none, absurd rfl, ?_⟩
    intro f fs hf hft
    cases hf with
    | none => exact List.nil_prefix
    | digits =>
      rcases hft with ⟨x, rfl⟩
      exact absurd rfl hpoint

/-- Where a digit or a point comes next there is no exponent. -/
theorem IsExponent.eq_nil {e t u : Text} {x : Int} {y : CodePoint} (h : IsExponent e x)
    (heq : y :: u = e ++ t) (hy : y.IsDigit ∨ y = '.') : e = [] := by
  cases h with
  | none => rfl
  | digits hmark =>
    obtain ⟨rfl, -⟩ := List.cons.inj heq
    rcases hmark with rfl | rfl <;> exact absurd hy (by decide)

namespace Numeral

variable {ds u : Text} {negative : Bool}

theorem split_append_of_stops (hds : AreDigits ds) (hu : Stops (·.IsDigit) u) :
    split (ds ++ u) = (ds, u) := by
  have hall : ∀ x ∈ ds, decide x.IsDigit = true := fun x hx => decide_eq_true (hds x hx)
  have htake : u.takeWhile (·.IsDigit) = [] := hu.takeWhile
  have hdrop : u.dropWhile (·.IsDigit) = u := by
    rw [← List.nil_append (u.dropWhile _), ← htake, List.takeWhile_append_dropWhile]
  simp only [split, List.takeWhile_append_of_pos hall, List.dropWhile_append_of_pos hall, htake,
    hdrop, List.append_nil]

theorem splitSign_append {sg : Text} (hsg : IsSign sg negative) (hne : ds ≠ [])
    (hds : AreDigits ds) (u : Text) : splitSign (sg ++ (ds ++ u)) = (negative, ds ++ u) := by
  cases hsg with
  | plus | minus => rfl
  | none =>
    cases ds with
    | nil => exact absurd rfl hne
    | cons d ds =>
      have hd : d.IsDigit := hds d List.mem_cons_self
      exact (if_neg (hd.ne (by decide))).trans (if_neg (hd.ne (by decide)))

theorem toInt_eq {sg : Text} (hsg : IsSign sg negative) (hne : ds ≠ []) (hds : AreDigits ds) :
    toInt (sg ++ ds) = if digitLimit < ds.length then .error .numeralTooLong
      else .ok (if negative then -(toNat ds : Int) else toNat ds) := by
  have hsplit : splitSign (sg ++ ds) = (negative, ds) := by
    simpa only [List.append_nil] using splitSign_append hsg hne hds []
  have hnot : ¬ (ds = [] ∨ ∃ c ∈ ds, ¬ c.IsDigit) := by
    rintro (rfl | ⟨c, hc, hnot⟩)
    · exact hne rfl
    · exact hnot (hds c hc)
  simp only [toInt, hsplit, if_neg hnot]

theorem toInt_append {sg : Text} (hsg : IsSign sg negative) (hne : ds ≠ []) (hds : AreDigits ds)
    (hlen : ds.length ≤ digitLimit) :
    toInt (sg ++ ds) = .ok (if negative then -(toNat ds : Int) else toNat ds) := by
  rw [toInt_eq hsg hne hds, if_neg (Nat.not_lt.2 hlen)]

end Numeral

namespace Decimal

variable {sg ds f fs e : Text} {negative : Bool} {x : Int}

theorem splitFraction_append (hf : IsFraction f fs) (he : IsExponent e x) :
    splitFraction (f ++ e) = (fs, e) := by
  cases hf with
  | digits hne hfs => exact Numeral.split_append_of_stops hfs he.stops
  | none =>
    cases he with
    | none => rfl
    | digits hmark => rcases hmark with rfl | rfl <;> rfl

theorem exponent?_of_isExponent (he : IsExponent e x) : exponent? e = some x := by
  cases he with
  | none => rfl
  | digits hmark hsg hne hds =>
    have hsplit := Numeral.splitSign_append hsg hne hds []
    simp only [List.append_nil] at hsplit
    simp only [exponent?, hsplit]
    exact if_pos ⟨hmark, hne, hds⟩

/-- A literal is the number that its parts give. -/
theorem ofText?_append (hsg : IsSign sg negative) (hne : ds ≠ []) (hds : AreDigits ds)
    (hf : IsFraction f fs) (he : IsExponent e x) :
    ofText? (sg ++ (ds ++ (f ++ e))) =
      some ⟨negative, Numeral.toNat (ds ++ fs), x - fs.length⟩ := by
  have hrest : Numeral.split (ds ++ (f ++ e)) = (ds, f ++ e) :=
    Numeral.split_append_of_stops hds (hf.stops fun _ => he.stops)
  simp only [ofText?, Numeral.splitSign_append hsg hne hds, hrest, splitFraction_append hf he,
    if_neg hne, exponent?_of_isExponent he, Option.map_some]

end Decimal

namespace Number

variable {sg ds f fs e : Text} {negative : Bool} {x : Int}

theorem ofInteger_append (hsg : IsSign sg negative) (hne : ds ≠ []) (hds : AreDigits ds)
    (hlen : ds.length ≤ Numeral.digitLimit) :
    ofInteger (sg ++ ds) =
      .ok (int (if negative then -(Numeral.toNat ds : Int) else Numeral.toNat ds)) := by
  rw [ofInteger, Numeral.toInt_append hsg hne hds hlen]
  rfl

theorem ofInteger_tooLong (hsg : IsSign sg negative) (hne : ds ≠ []) (hds : AreDigits ds)
    (hlen : Numeral.digitLimit < ds.length) : ofInteger (sg ++ ds) = .error .numeralTooLong := by
  rw [ofInteger, Numeral.toInt_eq hsg hne hds, if_pos hlen]
  rfl

theorem ofDecimal_append (hsg : IsSign sg negative) (hne : ds ≠ []) (hds : AreDigits ds)
    (hf : IsFraction f fs) (he : IsExponent e x) :
    ofDecimal (sg ++ (ds ++ (f ++ e))) =
      .ok (float (.ofDecimal ⟨negative, Numeral.toNat (ds ++ fs), x - fs.length⟩)) := by
  rw [ofDecimal, Decimal.ofText?_append hsg hne hds hf he]

end Number
end Descent
