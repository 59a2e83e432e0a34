import Descent.Proofs.Arith.Taking

/-!
# The value of what is parsed

The trees that the parser of arithmetic makes have the four operators and no negative numbers, so
that an evaluation can only divide by zero or overflow. Without divisions and points it does
neither: the value is the integer that `IsSum` gives the text, which knows of precedence and of
left associativity but of no trees (`evaluate_parsed`).
-/

namespace Descent

/-! ### Trees and what their evaluation may end in -/

/-- No number at all is not a non-negative one; infinity is. -/
def Binary64.IsNonNegative (x : Binary64) : Prop := x.isNaN = false ∧ x.negative = false

def Number.IsNonNegative : Number → Prop
  | int i => 0 ≤ i
  | float x => x.IsNonNegative

namespace Fault

def IsZeroDivision (f : Fault) : Prop := f = zeroDivisor ∨ f = floatZeroDivisor

def IsOverflow (f : Fault) : Prop := f = integerTooLarge ∨ f = quotientTooLarge

end Fault

namespace Expr

def operators : Expr → List Text
  | number _ => []
  | binary operator left right => operator :: (left.operators ++ right.operators)

def numbers : Expr → List Number
  | number n => [n]
  | binary _ left right => left.numbers ++ right.numbers

end Expr

theorem of_bind_eq_error {ε α β : Type} {x : Except ε α} {k : α → Except ε β} {e : ε}
    (h : x >>= k = .error e) : x = .error e ∨ ∃ v, x = .ok v ∧ k v = .error e := by
  cases x with
  | error d => exact .inl (congrArg _ (Except.error.inj h))
  | ok v => exact .inr ⟨v, rfl, h⟩

namespace Number

variable {a b : Number} {f : Fault}

theorem toBinary64_error (h : a.toBinary64 = .error f) : f.IsOverflow := by
  cases a with
  | float x => cases h
  | int i =>
    simp only [toBinary64] at h
    split at h
    · cases h
    · cases h
      exact .inl rfl

theorem floating_error {op : Binary64 → Binary64 → Except Fault Binary64}
    (h : floating op a b = .error f) : f.IsOverflow ∨ ∃ x y, op x y = .error f := by
  unfold floating at h
  rcases of_bind_eq_error h with hx | ⟨x, -, h⟩
  · exact .inl (toBinary64_error hx)
  rcases of_bind_eq_error h with hy | ⟨y, -, h⟩
  · exact .inl (toBinary64_error hy)
  rcases of_bind_eq_error h with hz | ⟨z, -, h⟩
  · exact .inr ⟨x, y, hz⟩
  · cases h

theorem floating_total_error {op : Binary64 → Binary64 → Binary64}
    (h : floating (fun x y => .ok (op x y)) a b = .error f) : f.IsOverflow := by
  rcases floating_error h with hf | ⟨x, y, hf⟩
  · exact hf
  · cases hf

end Number

theorem Operation.apply_error {op : Operation} {a b : Number} {f : Fault}
    (h : op.apply a b = .error f) : f.IsZeroDivision ∨ f.IsOverflow := by
  cases op with
  | add | sub | mul =>
    simp only [apply, Number.add, Number.sub, Number.mul] at h
    split at h
    · cases h
    · exact .inr (Number.floating_total_error h)
  | div =>
    simp only [apply, Number.div] at h
    split at h
    · split at h
      · cases h
        exact .inl (.inl rfl)
      · split at h
        · cases h
        · cases h
          exact .inr (.inr rfl)
    · rcases Number.floating_error h with hf | ⟨x, y, hf⟩
      · exact .inr hf
      · split at hf
        · cases hf
          exact .inl (.inr rfl)
        · cases hf

/-- With operators that have a meaning an evaluation does nothing worse than arithmetic does. -/
theorem Expr.evaluate_error {e : Expr} {f : Fault}
    (hop : ∀ op ∈ e.operators, (Operation.of? op).isSome) (h : e.evaluate = .error f) :
    f.IsZeroDivision ∨ f.IsOverflow := by
  induction e with
  | number n => cases h
  | binary operator left right ihl ihr =>
    simp only [operators, List.forall_mem_cons, List.forall_mem_append] at hop
    obtain ⟨op, hoperator⟩ := Option.isSome_iff_exists.1 hop.1
    simp only [evaluate, hoperator] at h
    rcases of_bind_eq_error h with hl | ⟨a, -, h⟩
    · exact ihl hop.2.1 hl
    rcases of_bind_eq_error h with hr | ⟨b, -, h⟩
    · exact ihr hop.2.2 hr
    · exact Operation.apply_error h

/-! ### Numbers that are read -/

namespace Binary64

theorem ofParts_nonNegative {m : Nat} (h : m ≤ infinityBits) :
    (ofParts false m).IsNonNegative := by
  have hinf : infinityBits = 9218868437227405312 := by decide
  have hbits : (ofParts false m).bits.toNat = m := by
    unfold ofParts
    simp only [Bool.false_eq_true, if_false, Nat.zero_add, UInt64.toNat_ofNat']
    omega
  constructor
  · unfold isNaN field fraction
    rw [hbits, show Nat.pow 2 52 = 4503599627370496 from rfl, show Nat.pow 2 11 = 2048 from rfl,
      Bool.eq_false_iff]
    intro hnan
    simp only [Bool.and_eq_true, decide_eq_true_eq] at hnan
    omega
  · unfold negative
    rw [hbits, show Nat.pow 2 63 = 9223372036854775808 from rfl]
    exact decide_eq_false (by omega)

theorem magnitudeOfRatio_le (num den : Nat) : magnitudeOfRatio num den ≤ infinityBits := by
  unfold magnitudeOfRatio
  split
  · exact Nat.zero_le _
  · exact Nat.min_le_right _ _

theorem ofDecimal_nonNegative (k : Nat) (e : Int) :
    (ofDecimal ⟨false, k, e⟩).IsNonNegative := by
  unfold ofDecimal
  split_ifs
  · exact ofParts_nonNegative (Nat.zero_le _)
  · exact ofParts_nonNegative (Nat.le_refl _)
  · exact ofParts_nonNegative (Nat.zero_le _)
  · exact ofParts_nonNegative (magnitudeOfRatio_le _ _)

end Binary64

namespace Arith

open Descent.Parser (AreDigits AreBlank)

variable {s : Text} {e : Expr}

theorem IsNumeral.isNonNegative {n : Number} (h : IsNumeral s n) : n.IsNonNegative := by
  cases h with
  | integer => exact Int.natCast_nonneg _
  | real => exact Binary64.ofDecimal_nonNegative _ _

/-! ### Properties of expressions -/

/-- Properties of expressions, terms and factors that the rules of the grammar keep. -/
structure Closed (E T F : Text → Expr → Prop) : Prop where
  number {s w : Text} {n : Number} (h : IsNumeral s n) (hw : AreBlank w) : F (s ++ w) (.number n)
  group {w s w' : Text} {e : Expr} (hw : AreBlank w) (h : E s e) (hw' : AreBlank w') :
    F ('(' :: (w ++ (s ++ (')' : CodePoint) :: w'))) e
  factor {s : Text} {e : Expr} (h : F s e) : T s e
  product {s w u : Text} {c : CodePoint} {l r : Expr} (hl : T s l) (hc : c ∈ ("*/" : Text))
    (hw : AreBlank w) (hr : F u r) : T (s ++ c :: (w ++ u)) (.binary [c] l r)
  term {s : Text} {e : Expr} (h : T s e) : E s e
  sum {s w u : Text} {c : CodePoint} {l r : Expr} (hl : E s l) (hc : c ∈ ("+-" : Text))
    (hw : AreBlank w) (hr : T u r) : E (s ++ c :: (w ++ u)) (.binary [c] l r)

theorem IsExpr.of_closed {E T F : Text → Expr → Prop} (hclosed : Closed E T F) (h : IsExpr s e) :
    E s e := by
  -- The recursor also goes through chains, where the property is that of the level.
  refine @IsExpr.rec (fun s e _ => E s e) (fun s e _ => T s e) (fun s e _ => F s e)
    (fun s e _ => E s e) (fun s e _ => T s e) ?_ ?_ ?_ ?_ ?_ ?_ ?_ ?_ s e h
  · exact fun _ h => h
  · exact fun _ h => h
  · exact fun h hw => hclosed.number h hw
  · exact fun hw _ hw' h => hclosed.group hw h hw'
  · exact fun _ h => hclosed.term h
  · exact fun _ hc hw _ hl hr => hclosed.sum hl hc hw hr
  · exact fun _ h => hclosed.factor h
  · exact fun _ hc hw _ hl hr => hclosed.product hl hc hw hr

/-- Operators that have a meaning, and no negative number. -/
structure Sound (e : Expr) : Prop where
  operators : ∀ op ∈ e.operators, (Operation.of? op).isSome
  numbers : ∀ n ∈ e.numbers, n.IsNonNegative

theorem Sound.binary {c : CodePoint} {l r : Expr} (hc : (Operation.of? [c]).isSome)
    (hl : Sound l) (hr : Sound r) : Sound (.binary [c] l r) where
  operators := by
    simp only [Expr.operators, List.forall_mem_cons, List.forall_mem_append]
    exact ⟨hc, hl.operators, hr.operators⟩
  numbers := List.forall_mem_append.2 ⟨hl.numbers, hr.numbers⟩

theorem IsExpr.sound (h : IsExpr s e) : Sound e := by
  have hclosed : Closed (fun _ => Sound) (fun _ => Sound) fun _ => Sound :=
    { number := fun h _ => ⟨nofun, List.forall_mem_singleton.2 h.isNonNegative⟩
      group := fun _ h _ => h
      factor := id
      product := fun hl hc _ hr => hl.binary
        ((by decide : ∀ c ∈ ("*/" : Text), (Operation.of? [c]).isSome) _ hc) hr
      term := id
      sum := fun hl hc _ hr => hl.binary
        ((by decide : ∀ c ∈ ("+-" : Text), (Operation.of? [c]).isSome) _ hc) hr }
  exact h.of_closed hclosed

/-! ### Exact values -/

mutual

/-- The value of a text by exact integer arithmetic: sums and differences of products. -/
inductive IsSum : Text → Int → Prop where
  | one {s : Text} {x : Int} (h : IsProduct s x) : IsSum s x
  | add {s w u : Text} {x y : Int} (hx : IsSum s x) (hw : AreBlank w) (hy : IsProduct u y) :
      IsSum (s ++ ('+' : CodePoint) :: (w ++ u)) (x + y)
  | sub {s w u : Text} {x y : Int} (hx : IsSum s x) (hw : AreBlank w) (hy : IsProduct u y) :
      IsSum (s ++ ('-' : CodePoint) :: (w ++ u)) (x - y)

inductive IsProduct : Text → Int → Prop where
  | one {s : Text} {x : Int} (h : IsAtom s x) : IsProduct s x
  | mul {s w u : Text} {x y : Int} (hx : IsProduct s x) (hw : AreBlank w) (hy : IsAtom u y) :
      IsProduct (s ++ ('*' : CodePoint) :: (w ++ u)) (x * y)

inductive IsAtom : Text → Int → Prop where
  | numeral {ds w : Text} (hne : ds ≠ []) (hds : AreDigits ds) (hw : AreBlank w) :
      IsAtom (ds ++ w) (Numeral.toNat ds)
  | group {w s w' : Text} {x : Int} (hw : AreBlank w) (h : IsSum s x) (hw' : AreBlank w') :
      IsAtom ('(' :: (w ++ (s ++ (')' : CodePoint) :: w'))) x

end

theorem evaluate_binary {c : CodePoint} {op : Operation} {l r : Expr} {a b : Number}
    (hop : Operation.of? [c] = some op) (hl : l.evaluate = .ok a) (hr : r.evaluate = .ok b) :
    (Expr.binary [c] l r).evaluate = op.apply a b := by
  simp only [Expr.evaluate, hop, hl, hr]
  rfl

/-- Without points and divisions the value of a tree is that of its text in `V`. -/
def Exact (V : Text → Int → Prop) (s : Text) (e : Expr) : Prop :=
  ('.' : CodePoint) ∉ s → ('/' : CodePoint) ∉ s → ∃ x, V s x ∧ e.evaluate = .ok (.int x)

theorem Exact.mono {V W : Text → Int → Prop} (hVW : ∀ x, V s x → W s x) (h : Exact V s e) :
    Exact W s e := by
  intro hpoint hslash
  obtain ⟨x, hx, he⟩ := h hpoint hslash
  exact ⟨x, hVW x hx, he⟩

theorem Exact.binary {V W : Text → Int → Prop} {w u : Text} {c : CodePoint} {l r : Expr}
    (hl : Exact V s l) (hr : Exact W u r)
    (hc : c ≠ '/' → ∃ op, Operation.of? [c] = some op ∧ ∀ x y, V s x → W u y →
      ∃ z, V (s ++ c :: (w ++ u)) z ∧ op.apply (.int x) (.int y) = .ok (.int z)) :
    Exact V (s ++ c :: (w ++ u)) (.binary [c] l r) := by
  intro hpoint hslash
  simp only [List.mem_append, List.mem_cons, not_or] at hpoint hslash
  obtain ⟨x, hx, hlx⟩ := hl hpoint.1 hslash.1
  obtain ⟨y, hy, hry⟩ := hr hpoint.2.2.2 hslash.2.2.2
  obtain ⟨op, hop, happly⟩ := hc (Ne.symm hslash.2.1)
  obtain ⟨z, hz, hvalue⟩ := happly x y hx hy
  exact ⟨z, hz, (evaluate_binary hop hlx hry).trans hvalue⟩

theorem closed_exact : Closed (Exact IsSum) (Exact IsProduct) (Exact IsAtom) where
  number := by
    intro s w n h hw hpoint _
    cases h with
    | integer hne hds => exact ⟨_, .numeral hne hds hw, rfl⟩
    | real => simp at hpoint
  group := by
    intro w s w' e hw h hw' hpoint hslash
    simp only [List.mem_append, List.mem_cons, not_or] at hpoint hslash
    obtain ⟨x, hx, he⟩ := h hpoint.2.2.1 hslash.2.2.1
    exact ⟨x, .group hw hx hw', he⟩
  factor h := h.mono fun _ => .one
  product := by
    intro s w u c l r hl hc hw hr
    refine hl.binary hr fun hslash => ?_
    obtain rfl : c = '*' := by
      revert hslash
      exact (by decide : ∀ c ∈ ("*/" : Text), c ≠ '/' → c = '*') c hc
    exact ⟨.mul, rfl, fun x y hx hy => ⟨x * y, .mul hx hw hy, rfl⟩⟩
  term h := h.mono fun _ => .one
  sum := by
    intro s w u c l r hl hc hw hr
    refine hl.binary hr fun _ => ?_
    obtain rfl | rfl : c = '+' ∨ c = '-' :=
      (by decide : ∀ c ∈ ("+-" : Text), c = '+' ∨ c = '-') c hc
    · exact ⟨.add, rfl, fun x y hx hy => ⟨x + y, .add hx hw hy, rfl⟩⟩
    · exact ⟨.sub, rfl, fun x y hx hy => ⟨x - y, .sub hx hw hy, rfl⟩⟩

/-- A text with a value is an expression, one with that value. -/
theorem IsSum.exists_tree {x : Int} (h : IsSum s x) :
    ∃ e, IsExpr s e ∧ e.evaluate = .ok (.int x) := by
  refine @IsSum.rec (fun s x _ => ∃ e, IsExpr s e ∧ e.evaluate = .ok (.int x))
    (fun s x _ => ∃ e, IsTerm s e ∧ e.evaluate = .ok (.int x))
    (fun s x _ => ∃ e, IsFactor s e ∧ e.evaluate = .ok (.int x)) ?_ ?_ ?_ ?_ ?_ ?_ ?_ s x h
  · rintro s x - ⟨e, he, hx⟩
    exact ⟨e, .intro (.one he), hx⟩
  · rintro s w u x y - hw - ⟨l, ⟨hl⟩, hx⟩ ⟨r, hr, hy⟩
    have hop : Operation.of? ['+'] = some .add := rfl
    exact ⟨_, .intro (.more hl (by decide) hw hr), evaluate_binary hop hx hy⟩
  · rintro s w u x y - hw - ⟨l, ⟨hl⟩, hx⟩ ⟨r, hr, hy⟩
    have hop : Operation.of? ['-'] = some .sub := rfl
    exact ⟨_, .intro (.more hl (by decide) hw hr), evaluate_binary hop hx hy⟩
  · rintro s x - ⟨e, he, hx⟩
    exact ⟨e, .intro (.one he), hx⟩
  · rintro s w u x y - hw - ⟨l, ⟨hl⟩, hx⟩ ⟨r, hr, hy⟩
    have hop : Operation.of? ['*'] = some .mul := rfl
    exact ⟨_, .intro (.more hl (by decide) hw hr), evaluate_binary hop hx hy⟩
  · rintro ds w hne hds hw
    exact ⟨_, .number (.integer hne hds) hw, rfl⟩
  · rintro w s w' x hw - hw' ⟨e, he, hx⟩
    exact ⟨e, .group hw he hw', hx⟩

/-- An expression has one tree, if its numerals can be converted. -/
theorem IsExpr.unique {e' : Expr} (hs : DigitRunsWithin Numeral.digitLimit s) (h : IsExpr s e)
    (h' : IsExpr s e') : e = e' := by
  have hlongest : parser.ReadsLongest rules false IsExpr s := expr_readsLongest rfl hs
  cases hlongest with
  | missed hnone => exact absurd h (hnone s e List.prefix_rfl)
  | @took v r hr =>
    obtain rfl : s = r :=
      (hr.longest s e List.prefix_rfl h).eq_of_length_le hr.within.length_le
    rw [(hr.meaning e).1 h, (hr.meaning e').1 h']

/-- The value of an expression without points and divisions is the one value of its text. -/
theorem IsExpr.evaluate_exact (hs : DigitRunsWithin Numeral.digitLimit s) (h : IsExpr s e)
    (hpoint : ('.' : CodePoint) ∉ s) (hslash : ('/' : CodePoint) ∉ s) :
    ∃ x, e.evaluate = .ok (.int x) ∧ ∀ y, IsSum s y ↔ y = x := by
  obtain ⟨x, hx, he⟩ := h.of_closed closed_exact hpoint hslash
  refine ⟨x, he, fun y => ⟨fun hy => ?_, fun hyx => hyx ▸ hx⟩⟩
  obtain ⟨e', he', hy⟩ := hy.exists_tree
  obtain rfl := h.unique hs he'
  exact Number.int.inj (Except.ok.inj (hy.symm.trans he))

/-- Whenever a text is parsed, the tree has operators with a meaning and numbers that are not
negative, and an evaluation of it can at most divide by zero or overflow. If what was taken has no
point and no division, the evaluation succeeds with the value that integer arithmetic gives it. -/
theorem evaluate_parsed (verbose : Bool) (c d : Cursor) (e : Expr)
    (h : parser.Succeeds rules verbose c e d) :
    (∀ op ∈ e.operators, (Operation.of? op).isSome) ∧
    (∀ n ∈ e.numbers, n.IsNonNegative) ∧
    (∀ f, e.evaluate = .error f → f.IsZeroDivision ∨ f.IsOverflow) ∧
    ∃ s, c.unread = s ++ d.unread ∧ d = c.skip s ∧
      (('.' : CodePoint) ∉ s → ('/' : CodePoint) ∉ s →
        ∃ x, e.evaluate = .ok (.int x) ∧ ∀ y, IsSum s y ↔ y = x) := by
  obtain ⟨n, hn⟩ := h
  obtain ⟨s, ⟨hunread, hskip⟩, hs, hconverts⟩ := expr_takes rfl n c e d hn
  refine ⟨hs.sound.operators, hs.sound.numbers, fun f => Expr.evaluate_error hs.sound.operators,
    s, hunread, hskip, fun hpoint hslash => ?_⟩
  exact hs.evaluate_exact (hconverts hpoint) hpoint hslash

theorem evaluate_parsed_product_in_difference :
    let c : Cursor := .start "2-3*(4-1) =" []
    let s : Text := "2-3*(4-1) "
    let e : Expr := .binary "-" (.number (.int 2)) (.binary "*" (.number (.int 3))
      (.binary "-" (.number (.int 4)) (.number (.int 1))))
    parser.Succeeds rules false c e (c.skip s) ∧ (∀ op ∈ e.operators, (Operation.of? op).isSome) ∧
      e.evaluate = .ok (.int (-7)) ∧ ∀ y, IsSum s y ↔ y = -7 := by
  intro c s e
  have hparse : parser.Succeeds rules false c e (c.skip s) := ⟨nestingLimit, by decide +kernel⟩
  obtain ⟨hoperators, -, -, r, hunread, -, hexact⟩ := evaluate_parsed false c (c.skip s) e hparse
  obtain rfl : s = r := List.append_cancel_right (show s ++ (c.skip s).unread = _ from hunread)
  obtain ⟨x, hx, hvalue⟩ := hexact (by decide) (by decide)
  have he : e.evaluate = .ok (.int (-7)) := rfl
  obtain rfl : x = -7 := Number.int.inj (Except.ok.inj (hx.symm.trans he))
  exact ⟨hparse, hoperators, hx, hvalue⟩

end Arith
end Descent
