import Descent.Proofs.Json.Soundness

/-!
# What the JSON grammar does not miss

Where a text starts with a word of the language, `Grammar.element` takes that word or a longer one.
It takes a longer one only if a number goes on, or whitespace does; a comma or a closing bracket
behind the word excludes both. The alternatives of a value start with different characters.
-/

namespace Descent
namespace Json

open Descent.Parser

variable {ρ : Type → Type} {rules : Rules ρ} {verbose : Bool} {self : ρ Json} {s t u : Text}

/-! ### First characters -/

theorem not_mem_head {c y : CodePoint} (h : y ≠ c) : c ∉ (y :: t).head? :=
  fun hc => h (Option.some.inj hc)

theorem IsValue.head {v : Json} (h : IsValue s v) : ∃ y r, s = y :: r ∧ y ∉ blanks := by
  cases h with
  | null => exact ⟨_, _, rfl, by decide⟩
  | true => exact ⟨_, _, rfl, by decide⟩
  | false => exact ⟨_, _, rfl, by decide⟩
  | string h =>
    cases h
    exact ⟨_, _, rfl, by decide⟩
  | number h =>
    obtain ⟨y, r, rfl, hy⟩ := h.head
    refine ⟨y, r, rfl, ?_⟩
    rcases hy with rfl | hy
    · decide
    · intro hblank
      exact absurd hy ((by decide : ∀ c ∈ blanks, ¬ c.IsDigit) y hblank)
  | array h => cases h <;> exact ⟨_, _, rfl, by decide⟩
  | object h => cases h <;> exact ⟨_, _, rfl, by decide⟩

/-! ### Alternatives -/

/-- The characters that each kind of values starts with. -/
def firsts : List (CodePoint → Bool) :=
  [(· = 'n'), fun c => c = 't' || c = 'f', (· = '"'), fun c => c = '-' || c.IsDigit, (· = '['),
    (· = '{')]

theorem numberLiteral_misses (hminus : ('-' : CodePoint) ∉ t.head?) (ht : Stops (·.IsDigit) t) :
    (Grammar.numberLiteral (ρ := ρ)).Misses rules verbose t :=
  (minusSign_answers .none hminus).bind_misses (s := []) (integerPart_misses ht).bind

theorem alternatives_start :
    List.Forall₂ (StartsIn rules verbose) (alternatives self) firsts := by
  refine .cons ?null (.cons ?bool (.cons ?string (.cons ?number (.cons ?array (.cons ?object .nil)))))
  case null =>
    intro t ht
    exact Misses.map _ (Misses.char (ht.not_mem_head (by decide))).bind
  case bool =>
    intro t ht
    exact Misses.orElse (Misses.map _ (Misses.char (ht.not_mem_head (by decide))).bind)
      (Misses.map _ (Misses.char (ht.not_mem_head (by decide))).bind)
  case string =>
    intro t ht
    exact (stringLiteral_misses (ht.not_mem_head (by decide))).map _
  case number =>
    intro t ht
    have hdigit : Stops (·.IsDigit) t := fun c hc => (Bool.or_eq_false_iff.1 (ht c hc)).2
    exact (numberLiteral_misses (ht.not_mem_head (by decide)) hdigit).map _
  case array =>
    intro t ht
    exact Misses.map _ (Misses.char (ht.not_mem_head (by decide))).bind
  case object =>
    intro t ht
    exact Misses.map _ (Misses.map _ (Misses.char (ht.not_mem_head (by decide))).bind)

section
variable {p : Parser ρ Json} {y : CodePoint} {r : Text}

/-- The first character of a value decides for one of the alternatives. -/
theorem value_at {a : Answer Json} (k : Nat) (hk : (alternatives self)[k]? = Option.some p)
    (hy : y ∈ t.head?) (hC : ∀ C ∈ firsts.take k, C y = false)
    (ha : ∀ s message, a ≠ .missed s message) (hp : p.Answers rules verbose t a) :
    (Grammar.value self).Answers rules verbose t a :=
  Answers.firstOf_at alternatives_start k hk hy hC ha hp

theorem value_answers {v : Json} (k : Nat) (hk : (alternatives self)[k]? = Option.some p)
    (hy : y ∈ t.head?) (hC : ∀ C ∈ firsts.take k, C y = false)
    (hp : p.Answers rules verbose t (.took v r)) :
    (Grammar.value self).Answers rules verbose t (.took v r) :=
  value_at k hk hy hC nofun hp

theorem value_misses (hC : ∀ C ∈ firsts, C y = false) :
    (Grammar.value self).Misses rules verbose (y :: t) :=
  Misses.firstOf (List.cons_ne_nil _ _) (misses_of_startsIn alternatives_start rfl hC)

theorem value_null (t : Text) :
    (Grammar.value self).Answers rules verbose ("null" ++ t) (.took .null "null") :=
  value_answers (y := 'n') 0 rfl rfl (by decide) ((Answers.string "null" t).map _)

theorem value_true (t : Text) :
    (Grammar.value self).Answers rules verbose ("true" ++ t) (.took (.bool true) "true") :=
  value_answers (y := 't') 1 rfl rfl (by decide)
    (Answers.orElse nofun ((Answers.string "true" t).map _))

theorem value_false (t : Text) :
    (Grammar.value self).Answers rules verbose ("false" ++ t) (.took (.bool false) "false") := by
  have htrue : (Parser.string (ρ := ρ) "true").Misses rules verbose ("false" ++ t) :=
    (Misses.char (not_mem_head (by decide))).bind
  exact value_answers (y := 'f') 1 rfl rfl (by decide)
    (.orElse_missed (htrue.map _) ((Answers.string "false" t).map _))

theorem firsts_of_number (hy : y = '-' ∨ y.IsDigit) : ∀ C ∈ firsts.take 3, C y = false := by
  rcases hy with rfl | hy
  · decide
  · have hne : ∀ c : CodePoint, ¬ c.IsDigit → decide (y = c) = false :=
      fun c hc => decide_eq_false (hy.ne hc)
    simp only [firsts, List.take, List.forall_mem_cons]
    refine ⟨hne _ (by decide), ?_, hne _ (by decide), nofun⟩
    exact Bool.or_eq_false_iff.2 ⟨hne _ (by decide), hne _ (by decide)⟩

theorem value_number {n : Number} (hy : y = '-' ∨ y.IsDigit)
    (h : (Grammar.numberLiteral (ρ := ρ)).Answers rules verbose (y :: t) (.took n r)) :
    (Grammar.value self).Answers rules verbose (y :: t) (.took (.number n) r) :=
  value_answers 3 rfl rfl (firsts_of_number hy) (h.map _)

/-- A number that faults is not tried as anything else. -/
theorem value_number_stopped {e : Abort} (hy : y = '-' ∨ y.IsDigit)
    (h : (Grammar.numberLiteral (ρ := ρ)).Answers rules verbose (y :: t) (.stopped e)) :
    (Grammar.value self).Answers rules verbose (y :: t) (.stopped e) :=
  value_at 3 rfl rfl (firsts_of_number hy) nofun (h.tryMap _)

end

/-! ### Nested values -/

theorem element_misses_closing {w : Text} (hw : AreBlank w) (u : Text) :
    (Grammar.element self).Misses rules verbose (w ++ (']' : CodePoint) :: u) :=
  (Answers.whitespaces hw (Stops.cons_iff.2 (by decide))).bind_misses
    (value_misses (by decide)).bind

theorem member_misses_closing {w : Text} (hw : AreBlank w) (u : Text) :
    (Grammar.member self).Misses rules verbose (w ++ (('}' : CodePoint) :: u)) :=
  Misses.bind ((Answers.whitespaces hw (Stops.cons_iff.2 (by decide))).bind_misses
    (stringLiteral_misses (not_mem_head (by decide))).bind)

/-- A list in brackets is taken as it is, whatever follows. -/
theorem bracketed_answers {α : Type} {p : Parser ρ α} {L : Text → α → Prop}
    {C : CodePoint → Bool} {opening closing : CodePoint} {vs : List α}
    (h : Bracketed L opening closing s vs) (hclosing : closing ∉ blanks ∧ closing ≠ ',')
    (hmiss : ∀ w, AreBlank w → p.Misses rules verbose (w ++ closing :: u))
    (hp : ∀ b r v x, s ++ u = b ++ (r ++ x) → b ≠ [] → L r v → Stops C x →
      p.Answers rules verbose (r ++ x) (.took v r))
    (hC : C ',' = false ∧ C closing = false) :
    (between (char opening) (char closing)
      ((p.sepBySome (char ',')).orElse (whitespaces.map fun _ => []))).Answers rules verbose
        (s ++ u) (.took vs s) := by
  have hcomma : (',' : CodePoint) ∉ (closing :: u).head? := not_mem_head hclosing.2
  have hstops : Stops (· ∈ blanks) (closing :: u) :=
    Stops.cons_iff.2 (decide_eq_false hclosing.1)
  cases h with
  | @blank w hw =>
    have hitems : (p.sepBySome (char ',')).Misses rules verbose (w ++ closing :: u) :=
      (hmiss w hw).bind
    have htext : opening :: (w ++ [closing]) ++ u = [opening] ++ (w ++ ([closing] ++ u)) := by simp
    rw [htext]
    exact Answers.between (s := [opening]) (w := [closing]) (.char opening _)
      (.orElse_missed hitems ((Answers.whitespaces hw hstops).map _)) (.char closing u)
  | @items s vs h =>
    have htext : opening :: (s ++ [closing]) ++ u = [opening] ++ (s ++ ([closing] ++ u)) := by simp
    have hitems : (p.sepBySome (char ',')).Answers rules verbose (s ++ closing :: u)
        (.took vs s) := by
      refine h.answers hcomma fun b r v x hx hv hend => ?_
      refine hp (opening :: b) r v x ?_ (List.cons_ne_nil _ _) hv ?_
      · rw [htext]
        exact congrArg (opening :: ·) hx
      rcases hend with hend | rfl
      · intro c hc
        obtain rfl := Option.mem_unique hend hc
        exact hC.1
      · exact Stops.cons_iff.2 hC.2
    rw [htext]
    exact Answers.between (s := [opening]) (w := [closing]) (.char opening _)
      (hitems.orElse nofun) (.char closing u)

def elementGoesOn (c : CodePoint) : Bool := goesOn c || decide (c ∈ blanks)

section
variable (hself : Nested ((Parser.ref self).Covers rules verbose IsElement elementGoesOn) t)
include hself

theorem member_covers : (Grammar.member self).Covers rules verbose IsMember elementGoesOn t := by
  intro s u e ht h
  rcases h with @⟨w₁, k, w₂, x, key, v, hw₁, hk, hw₂, hx⟩
  have htext : t = (w₁ ++ (k ++ w₂)) ++ ((':' : CodePoint) :: (x ++ u)) := by rw [ht]; simp
  have hkey : (between whitespaces whitespaces Grammar.stringLiteral).Answers rules verbose
      ((w₁ ++ (k ++ w₂)) ++ ((':' : CodePoint) :: (x ++ u))) (.took key (w₁ ++ (k ++ w₂))) := by
    rw [List.append_assoc, List.append_assoc]
    refine Answers.between (.whitespaces hw₁ ?_) (stringLiteral_answers hk _)
      (.whitespaces hw₂ (Stops.cons_iff.2 (by decide)))
    cases hk
    exact Stops.cons_iff.2 (by decide)
  have hcover : (Parser.ref self).Covers rules verbose IsElement elementGoesOn (x ++ u) := by
    refine hself (w₁ ++ (k ++ w₂) ++ [(':' : CodePoint)]) _ ?_ (by simp)
    rw [htext]; simp
  obtain ⟨w, r, hr, hxr, hw, hends⟩ := hcover x u v rfl hx
  rw [htext]
  refine ⟨(key, w), _, hkey.bind (b := .took (key, w) ((':' : CodePoint) :: r)) ?_, ?_, ?_, ?_⟩
  · exact (Answers.char ':' (x ++ u)).keepRight (s := [(':' : CodePoint)]) (b := .took (key, w) r)
      (hr.map _)
  · rw [List.prefix_append_right_inj, List.prefix_cons_inj]
    exact hxr
  · intro heq
    rw [List.append_cancel_left_eq, List.cons.injEq] at heq
    rw [hw heq.2]
  · intro hu
    rw [hends hu]

theorem value_covers (hruns : DigitRunsWithin Numeral.digitLimit t)
    (hmiss : ∀ w u, AreBlank w →
      (Parser.ref self).Misses rules verbose (w ++ (']' : CodePoint) :: u)) :
    (Grammar.value self).Covers rules verbose IsValue goesOn t := by
  intro s u v ht h
  have hnumber : (Grammar.numberLiteral (ρ := ρ)).Covers rules verbose IsNumber goesOn t :=
    numberLiteral_covers hruns
  subst ht
  -- Of the alternatives only a number can be part of a longer one.
  cases h with
  | null => exact (value_null u).covers
  | true => exact (value_true u).covers
  | false => exact (value_false u).covers
  | string h =>
    have hs : (Grammar.stringLiteral (ρ := ρ)).Answers rules verbose _ _ :=
      stringLiteral_answers h u
    cases h
    exact (value_answers 2 rfl rfl (by decide) (hs.map _)).covers
  | number h =>
    obtain ⟨w, r, hr, hsr, hw, hends⟩ := hnumber s u _ rfl h
    obtain ⟨y, x, rfl, hy⟩ := h.head
    exact ⟨_, r, value_number hy hr, hsr, fun heq => by rw [hw heq], hends⟩
  | @array s vs h =>
    have hs : (Grammar.array self).Answers rules verbose (s ++ u) (.took vs s) :=
      bracketed_answers h (by decide) (fun w hw => hmiss w u hw)
        (fun b _ _ _ hx hb hv hstop => (hself b _ hx hb).answers hv hstop) (by decide)
    cases h <;> exact (value_answers 4 rfl rfl (by decide) (hs.map _)).covers
  | @object s es d h hd =>
    have hmember : Nested ((Grammar.member self).Covers rules verbose IsMember elementGoesOn)
        (s ++ u) := by
      intro b x hx hb
      rw [hx] at hself
      exact member_covers hself.right
    have hs : (Grammar.object self).Answers rules verbose (s ++ u) (.took d s) := by
      rw [Dictionary.collects_iff.1 hd]
      exact (bracketed_answers h (by decide) (fun w hw => member_misses_closing hw u)
        (fun b _ _ _ hx hb hv hstop => (hmember b _ hx hb).answers hv hstop) (by decide)).map _
    cases h <;> exact (value_answers 5 rfl rfl (by decide) (hs.map _)).covers

end

theorem element_covers (hself : rules _ self = Grammar.element self)
    (hruns : DigitRunsWithin Numeral.digitLimit t) :
    (Grammar.element self).Covers rules verbose IsElement elementGoesOn t := by
  -- Nested elements stand behind an opening bracket, so what they are taken from is shorter.
  induction t using Nested.induction with
  | _ t ih =>
    have hnested : Nested ((Parser.ref self).Covers rules verbose IsElement elementGoesOn) t := by
      intro s u ht hs
      subst ht
      exact .ref (hself ▸ ih s u rfl hs hruns.right)
    have hclosing : ∀ w u, AreBlank w →
        (Parser.ref self).Misses rules verbose (w ++ (']' : CodePoint) :: u) :=
      fun w u hw => .ref (hself ▸ element_misses_closing hw u)
    intro s u v ht h
    rcases h with @⟨w₁, x, w₂, v, hw₁, hv, hw₂⟩
    have htext : t = w₁ ++ (x ++ (w₂ ++ u)) := by rw [ht]; simp
    have hvalue : (Grammar.value self).Covers rules verbose IsValue goesOn (x ++ (w₂ ++ u)) := by
      rw [htext] at hruns hnested
      exact value_covers hnested.right hruns.right hclosing
    obtain ⟨w, r, hr, hxr, hw, hends⟩ := hvalue x (w₂ ++ u) v rfl hv
    have hblank : Stops (· ∈ blanks) (x ++ (w₂ ++ u)) := by
      obtain ⟨c, z, rfl, hc⟩ := hv.head
      exact Stops.cons_iff.2 (decide_eq_false hc)
    obtain ⟨z, hz⟩ := hr.prefix_of_took
    obtain ⟨b, z, rfl, hb, hzends⟩ := exists_blank z
    obtain ⟨hcovered, hexact, hstop⟩ :=
      cover_blank (by decide) hw₂ hb hzends hz hxr hends
    rw [← hz] at hr hblank htext
    rw [htext]
    refine ⟨w, w₁ ++ (r ++ b), Answers.between (.whitespaces hw₁ hblank) hr
      (.whitespaces hb hzends), ?_, fun heq => ?_, fun hu => ?_⟩
    · rw [List.prefix_append_right_inj]
      exact hcovered
    · exact hw (hexact (List.append_cancel_left heq))
    · rw [hstop hu]

/-! ### The grammar as a whole -/

theorem element_readsLongest (hself : rules _ self = Grammar.element self)
    (hruns : DigitRunsWithin Numeral.digitLimit t) :
    (Grammar.element self).ReadsLongest rules verbose IsElement t :=
  (element_reads hself hruns).longest (element_covers hself hruns)

/-- The parser of JSON takes the longest prefix of a text that is an element, with its one value,
and fails if no prefix is one; a text as a whole is read if it is an element. -/
theorem parser_recognises_elements (verbose : Bool) (text name : Text)
    (hruns : DigitRunsWithin Numeral.digitLimit text) :
    ∃ r, Reaches Json.rules verbose parser (.start text name) r ∧
      r.result.Recognises IsElement (.start text name) ∧
      (¬ (parser.parse Json.rules verbose (.start text name)).TooDeep →
        parser.parse Json.rules verbose (.start text name) = r ∧
        (∀ v, (parser.readText Json.rules verbose text name true).result = .ok v ↔
          IsElement text v) ∧
        ((∃ f, (parser.readText Json.rules verbose text name true).result =
            .error (.failure f)) ↔ ∀ v, ¬ IsElement text v)) :=
  (element_readsLongest rfl hruns).recognises name

theorem parser_reads_array : DigitRunsWithin Numeral.digitLimit "[0]" ∧
    (parser.readText Json.rules false "[0]" [] true).result = .ok (.array [.number (.int 0)]) := by
  have hruns : DigitRunsWithin Numeral.digitLimit "[0]" := .of_length_le (by decide)
  have hzero : IsNumber "0" (.int 0) := .intro .none .zero .none .none
  have hnil : AreBlank [] := nofun
  have hitem : IsElement "0" (.number (.int 0)) := .intro hnil (.number hzero) hnil
  have hlist : Bracketed IsElement '[' ']' "[0]" [.number (.int 0)] := .items (.one hitem)
  have harray : IsElement "[0]" (.array [.number (.int 0)]) := .intro hnil (.array hlist) hnil
  have hdeep : ¬ (parser.parse Json.rules false (.start "[0]" [])).TooDeep := by decide +kernel
  obtain ⟨r, -, -, hread⟩ := parser_recognises_elements false "[0]" [] hruns
  exact ⟨hruns, ((hread hdeep).2.1 _).2 harray⟩

end Json
end Descent
