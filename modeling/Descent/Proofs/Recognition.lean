import Descent.Proofs.Lexeme

/-!
# Recognising languages

A language with meanings is a relation `L` between texts and values. `p.Reads rules verbose L t`:
`p` takes a word of `L` off the front of `t`, with a meaning of it, or misses. Parsers put together
from such parsers read the languages put together in the same way.
-/

namespace Descent

/-- `P` holds behind every nonempty part that `t` starts with. -/
def Nested (P : Text → Prop) (t : Text) : Prop := ∀ s u, t = s ++ u → s ≠ [] → P u

namespace Nested

variable {P : Text → Prop} {s t : Text}

theorem right (h : Nested P (s ++ t)) : Nested P t :=
  fun r u ht hr => h (s ++ r) u (by rw [ht, List.append_assoc]) (by simp [hr])

/-- Induction on the length of a text. -/
theorem induction (h : ∀ t, Nested P t → P t) (t : Text) : P t := by
  induction hn : t.length using Nat.strongRecOn generalizing t with
  | _ n ih =>
    refine h t fun s u ht hs => ih u.length ?_ u rfl
    have := List.length_pos_iff.2 hs
    rw [← hn, ht, List.length_append]; omega

end Nested

namespace Parser

variable {ρ : Type → Type} {rules : Rules ρ} {verbose : Bool} {α β γ : Type}

/-- A word of `L` is taken off `t`, or none. -/
inductive Reads (rules : Rules ρ) (verbose : Bool) (L : Text → α → Prop) (p : Parser ρ α)
    (t : Text) : Prop where
  | took {v : α} {s u : Text} (ht : t = s ++ u) (hL : L s v)
      (h : p.Answers rules verbose t (.took v s))
  | missed (h : p.Misses rules verbose t)

/-- Words of `L` with the character `c` between them. -/
inductive SepBy (L : Text → α → Prop) (c : CodePoint) : Text → List α → Prop where
  | one {s : Text} {v : α} (h : L s v) : SepBy L c s [v]
  | cons {s u : Text} {v : α} {vs : List α} (h : L s v) (hs : SepBy L c u vs) :
      SepBy L c (s ++ c :: u) (v :: vs)

namespace Reads

variable {L M : Text → α → Prop} {N : Text → β → Prop} {p q : Parser ρ α} {t : Text}

theorem mono (h : ∀ s v, L s v → M s v) (hp : p.Reads rules verbose L t) :
    p.Reads rules verbose M t := by
  cases hp with
  | took ht hL hp => exact .took ht (h _ _ hL) hp
  | missed hp => exact .missed hp

theorem sound {s : Text} {v : α} (hp : p.Reads rules verbose L t)
    (h : p.Answers rules verbose t (.took v s)) : L s v := by
  cases hp with
  | took ht hL hp => cases hp.unique h; exact hL
  | missed hp => exact absurd hp h.not_misses

theorem pure {v : α} (hv : L [] v) : (Parser.pure (ρ := ρ) v).Reads rules verbose L t :=
  .took rfl hv (.pure v t)

/-- The language of what follows may depend on the word and the value before it. -/
theorem bind {k : α → Parser ρ β} (hp : p.Reads rules verbose L t)
    (hk : ∀ s v u, t = s ++ u → L s v →
      (k v).Reads rules verbose (fun r w => N (s ++ r) w) u) :
    (p.bind k).Reads rules verbose N t := by
  cases hp with
  | missed hp => exact .missed hp.bind
  | @took v s u ht hL hp =>
    subst ht
    cases hk s v u rfl hL with
    | missed hw => exact .missed (hp.bind_misses hw)
    | @took w r x hu hN hw =>
      exact .took (by rw [hu, List.append_assoc]) hN (hp.bind hw)

theorem tryMap {f : α → Except Fault β} (hp : p.Reads rules verbose L t)
    (hf : ∀ s v, s <+: t → L s v → ∃ w, f v = .ok w ∧ N s w) :
    (p.tryMap f).Reads rules verbose N t := by
  cases hp with
  | missed hp => exact .missed (hp.tryMap f)
  | took ht hL hp =>
    obtain ⟨w, hw, hN⟩ := hf _ _ ⟨_, ht.symm⟩ hL
    have hmap := hp.tryMap f
    simp only [Answer.tryMap, hw] at hmap
    exact .took ht hN hmap

theorem map {f : α → β} (hp : p.Reads rules verbose L t) (hf : ∀ s v, L s v → N s (f v)) :
    (p.map f).Reads rules verbose N t :=
  hp.tryMap fun s v _ hL => ⟨f v, rfl, hf s v hL⟩

theorem filter {accepts : α → Bool} {shown : α → Text} {description : Text}
    (hp : p.Reads rules verbose L t) :
    (p.filter (fun v => .ok (accepts v)) (fun v => .ok (shown v)) description).Reads rules verbose
      (fun s v => L s v ∧ accepts v = true) t := by
  cases hp with
  | missed hp => exact .missed hp.filter
  | @took v s u ht hL hp =>
    cases hv : accepts v with
    | true => exact .took ht ⟨hL, hv⟩ (hp.filter_true hv)
    | false => exact .missed (hp.filter_false hv)

theorem orElse (hp : p.Reads rules verbose L t) (hq : q.Reads rules verbose L t) :
    (p.orElse q).Reads rules verbose L t := by
  cases hp with
  | took ht hL hp => exact .took ht hL (hp.orElse (by simp))
  | missed hp =>
    cases hq with
    | took ht hL hq => exact .took ht hL (.orElse_missed hp hq)
    | missed hq => exact .missed (hp.orElse hq)

theorem keepRight {q : Parser ρ β} (hp : p.Reads rules verbose L t)
    (hq : ∀ s v u, t = s ++ u → L s v → q.Reads rules verbose (fun r w => N (s ++ r) w) u) :
    (p.keepRight q).Reads rules verbose N t := hp.bind hq

theorem keepLeft {q : Parser ρ γ} {K : Text → γ → Prop} (hp : p.Reads rules verbose L t)
    (hq : ∀ s v u, t = s ++ u → L s v → q.Reads rules verbose K u)
    (hM : ∀ s v r w, L s v → K r w → M (s ++ r) v) :
    (p.keepLeft q).Reads rules verbose M t :=
  hp.bind fun s v u ht hL => (hq s v u ht hL).map fun r w hK => hM s v r w hL hK

/-- The word between two others, in a language of its own. -/
theorem between {opening : Parser ρ β} {closing : Parser ρ γ} {K : Text → γ → Prop}
    (ho : opening.Reads rules verbose N t)
    (hp : ∀ s v u, t = s ++ u → N s v → p.Reads rules verbose L u)
    (hc : ∀ s u, t = s ++ u → closing.Reads rules verbose K u)
    (hM : ∀ o x s v c y, N o x → L s v → K c y → M (o ++ (s ++ c)) v) :
    (Parser.between opening closing p).Reads rules verbose M t := by
  refine ho.bind fun o x u ht hN => (hp o x u ht hN).bind fun s v w hu hL => ?_
  refine (hc (o ++ s) w (by rw [ht, hu, List.append_assoc])).bind fun c y z _ hK => ?_
  exact .pure (by simpa using hM o x s v c y hN hL hK)

theorem firstOf {ps : List (Parser ρ α)} (hne : ps ≠ [])
    (hps : ∀ p ∈ ps, p.Reads rules verbose L t) : (Parser.firstOf ps).Reads rules verbose L t := by
  suffices ∀ qs, (∀ q ∈ qs, q.Misses rules verbose t) →
      (Parser.firstOf (qs ++ ps)).Reads rules verbose L t from this [] nofun
  induction ps with
  | nil => exact absurd rfl hne
  | cons p ps ih =>
    intro qs hqs
    cases hps p List.mem_cons_self with
    | took ht hL hp => exact .took ht hL (.firstOf qs ps hqs hp (.inl (by simp)))
    | missed hp =>
      by_cases hnil : ps = []
      · rcases hp with ⟨s, message, hp⟩
        subst hnil
        exact .missed ⟨s, message, .firstOf qs [] hqs hp (.inr rfl)⟩
      · have hrest := ih hnil (fun p hp => hps p (List.mem_cons_of_mem _ hp)) (qs ++ [p]) ?_
        · rwa [List.append_assoc] at hrest
        · intro q hq
          rcases List.mem_append.1 hq with hq | hq
          · exact hqs q hq
          · rw [List.mem_singleton.1 hq]; exact hp

/-- A choice misses only where all of its parsers miss. -/
theorem misses_of_firstOf {ps : List (Parser ρ α)} (qs : List (Parser ρ α))
    (hps : ∀ p ∈ ps, p.Reads rules verbose L t) (hqs : ∀ q ∈ qs, q.Misses rules verbose t)
    (h : (Parser.firstOf (qs ++ ps)).Misses rules verbose t) :
    ∀ p ∈ ps, p.Misses rules verbose t := by
  induction ps generalizing qs with
  | nil => exact nofun
  | cons p ps ih =>
    obtain ⟨hp, hps⟩ := List.forall_mem_cons.1 hps
    cases hp with
    | took ht hL hp => exact absurd h (Answers.firstOf qs ps hqs hp (.inl nofun)).not_misses
    | missed hp =>
      refine List.forall_mem_cons.2 ⟨hp, ih (qs ++ [p]) hps ?_ (by simpa using h)⟩
      exact List.forall_mem_append.2 ⟨hqs, List.forall_mem_singleton.2 hp⟩

/-! ### Literals -/

section
variable {c : CodePoint} {s t : Text}

theorem satisfy (accepts : CodePoint → Bool) (description t : Text) :
    (Parser.satisfy (ρ := ρ) accepts description).Reads rules verbose
      (fun s x => s = [x] ∧ accepts x = true) t := by
  cases t with
  | nil => exact .missed (Misses.satisfy Stops.nil)
  | cons x t =>
    cases hx : accepts x with
    | false => exact .missed (Misses.satisfy (Stops.cons_iff.2 hx))
    | true => exact .took (s := [x]) rfl ⟨rfl, hx⟩ (.satisfy hx t)

theorem char (c : CodePoint) (t : Text) :
    (Parser.char (ρ := ρ) c).Reads rules verbose (fun s x => s = [c] ∧ x = c) t :=
  (satisfy _ _ t).mono fun s x ⟨hs, hx⟩ => ⟨by rw [hs, of_decide_eq_true hx], of_decide_eq_true hx⟩

theorem string (s t : Text) :
    (Parser.string (ρ := ρ) s).Reads rules verbose (fun r x => r = s ∧ x = s) t := by
  by_cases h : s <+: t
  · rcases h with ⟨u, rfl⟩
    exact .took rfl ⟨rfl, rfl⟩ (.string s u)
  · exact .missed (Misses.string h)

theorem digits (t : Text) :
    (Parser.digits (ρ := ρ)).Reads rules verbose (fun s x => x = s ∧ s ≠ [] ∧ AreDigits s) t := by
  obtain ⟨s, u, rfl, hs, hu⟩ := exists_digits t
  by_cases hne : s = []
  · subst hne; exact .missed (Misses.digits hu)
  · exact .took rfl ⟨rfl, hne, hs⟩ (.digits hne hs hu)

theorem whitespaces (t : Text) :
    (Parser.whitespaces (ρ := ρ)).Reads rules verbose (fun s _ => AreBlank s) t := by
  obtain ⟨s, u, rfl, hs, hu⟩ := exists_blank t
  exact .took rfl hs (.whitespaces hs hu)

end

/-! ### Repetitions -/

/-- Words of `L` one after another; which of them a word can stand in front of may depend on how
it was read. -/
theorem many_took {K : Text → List α → Prop} (hnil : K [] [])
    (hcons : ∀ s v u vs w, p.Answers rules verbose (s ++ (u ++ w)) (.took v s) → L s v → K u vs →
      K (s ++ u) (v :: vs)) (hL : ∀ s v, L s v → s ≠ [])
    (hp : ∀ s u, t = s ++ u → p.Reads rules verbose L u) :
    ∃ vs s u, t = s ++ u ∧ K s vs ∧ p.many.Answers rules verbose t (.took vs s) := by
  -- Every round takes something, so the next one has less to read.
  induction hn : t.length using Nat.strongRecOn generalizing t with
  | _ n ih =>
    cases hp [] t rfl with
    | missed h => exact ⟨[], [], t, rfl, hnil, .many_missed h⟩
    | @took v s u ht hLv h =>
      subst ht
      have hne := hL s v hLv
      have hlt : u.length < n := by
        have := List.length_pos_iff.2 hne
        rw [← hn, List.length_append]; omega
      obtain ⟨vs, r, w, hu, hK, hvs⟩ :=
        ih _ hlt (fun s' u' hu => hp (s ++ s') u' (by rw [hu, List.append_assoc])) rfl
      exact ⟨v :: vs, s ++ r, w, by rw [hu, List.append_assoc],
        hcons s v r vs w (hu ▸ h) hLv hK, h.many hne hvs⟩

theorem many {K : Text → List α → Prop} (hnil : K [] [])
    (hcons : ∀ s v u vs w, p.Answers rules verbose (s ++ (u ++ w)) (.took v s) → L s v → K u vs →
      K (s ++ u) (v :: vs)) (hL : ∀ s v, L s v → s ≠ [])
    (hp : ∀ s u, t = s ++ u → p.Reads rules verbose L u) :
    p.many.Reads rules verbose K t := by
  obtain ⟨vs, s, u, ht, hK, h⟩ := many_took hnil hcons hL hp
  exact .took ht hK h

/-- A word with a separator in front. -/
theorem separated {c : CodePoint} (hp : ∀ s u, t = s ++ u → p.Reads rules verbose L u) :
    ((Parser.char c).keepRight p).Reads rules verbose
      (fun r x => ∃ r', r = c :: r' ∧ L r' x) t := by
  refine (Reads.char c t).keepRight ?_
  rintro _ _ u ht ⟨rfl, -⟩
  exact (hp [c] u ht).mono fun r x hx => ⟨r, rfl, hx⟩

theorem sepBySome (c : CodePoint) (hp : ∀ s u, t = s ++ u → p.Reads rules verbose L u) :
    (p.sepBySome (Parser.char c)).Reads rules verbose (SepBy L c) t := by
  refine (hp [] t rfl).bind fun s v u ht hLv => ?_
  have hround : ∀ s' w, u = s' ++ w → ((Parser.char c).keepRight p).Reads rules verbose
      (fun r x => ∃ r', r = c :: r' ∧ L r' x) w := fun s' w hu =>
    separated fun b x hw => hp (s ++ (s' ++ b)) x (by rw [ht, hu, hw]; simp)
  refine (many (K := fun r vs => ∀ s v, L s v → SepBy L c (s ++ r) (v :: vs)) ?_ ?_ ?_ hround).map
    fun r vs h => h s v hLv
  · intro s v h; rw [List.append_nil]; exact .one h
  · rintro _ x r vs _ - ⟨r', rfl, hx⟩ hr s v h
    exact .cons h (hr r' x hx)
  · rintro _ x ⟨r', rfl, -⟩; exact List.cons_ne_nil c r'

theorem ref {r : ρ α} (h : (rules _ r).Reads rules verbose L t) :
    (Parser.ref r).Reads rules verbose L t := by
  cases h with
  | took ht hL h => exact .took ht hL h.ref
  | missed h => exact .missed h.ref

end Reads

/-! ### Separated words -/

section
variable {L : Text → α → Prop} {p : Parser ρ α} {c : CodePoint} {s t : Text} {vs : List α}

/-- Words that are taken where the separator or `t` follows are taken one after another. -/
theorem SepBy.answers (h : SepBy L c s vs) (ht : c ∉ t.head?)
    (hp : ∀ b r v u, s ++ t = b ++ (r ++ u) → L r v → c ∈ u.head? ∨ u = t →
      p.Answers rules verbose (r ++ u) (.took v r)) :
    (p.sepBySome (Parser.char c)).Answers rules verbose (s ++ t) (.took vs s) := by
  -- A first word, and the others in rounds behind it.
  suffices ∃ v r ws y, s = r ++ y ∧ vs = v :: ws ∧
      p.Answers rules verbose (r ++ (y ++ t)) (.took v r) ∧
      ((Parser.char c).keepRight p).many.Answers rules verbose (y ++ t) (.took ws y) by
    obtain ⟨v, r, ws, y, rfl, rfl, hr, hrest⟩ := this
    rw [List.append_assoc]
    exact hr.sepBySome hrest
  induction h with
  | @one s v h =>
    have hend : ((Parser.char c).keepRight p).Misses rules verbose t := (Misses.char ht).bind
    exact ⟨v, s, [], [], (List.append_nil s).symm, rfl, hp [] s v t rfl h (.inr rfl),
      .many_missed hend⟩
  | @cons s u v vs h hs ih =>
    have htext : s ++ c :: u ++ t = s ++ (c :: (u ++ t)) := by simp
    obtain ⟨w, r, ws, y, rfl, rfl, hr, hrest⟩ := ih fun b r w x hx hw hend =>
      hp (s ++ c :: b) r w x (by rw [htext, hx]; simp) hw hend
    have hround := (Answers.char c (r ++ (y ++ t))).keepRight (s := [c]) hr
    have hrounds := hround.many (s := c :: r) (List.cons_ne_nil c r) hrest
    exact ⟨v, s, w :: ws, c :: (r ++ y), rfl, rfl, hp [] s v _ htext h (.inl rfl),
      by simpa using hrounds⟩

end

/-! ### Chains -/

/-- Behind a first operand, operators with operands: the language `M` of what is read so far is
kept by every round. -/
theorem Continues.reads {operand : Parser ρ α} {operator : Parser ρ (α → α → Except Fault α)}
    {L M : Text → α → Prop} {K : Text → (α → α → Except Fault α) → Prop} {t b : Text} {acc : α}
    (hM : ∀ s v r f u w, M s v → K r f → L u w → ∃ x, f v w = .ok x ∧ M (s ++ (r ++ u)) x)
    (hK : ∀ r f, K r f → r ≠ [])
    (hop : ∀ s u, t = s ++ u → operator.Reads rules verbose K u)
    (hw : ∀ s u, t = s ++ u → operand.Reads rules verbose L u) (hacc : M b acc) :
    ∃ v s u, t = s ++ u ∧ M (b ++ s) v ∧ (s = [] → v = acc) ∧
      Continues rules verbose operand operator acc t (.took v s) := by
  induction hn : t.length using Nat.strongRecOn generalizing t b acc with
  | _ n ih =>
    cases hop [] t rfl with
    | missed h =>
      exact ⟨acc, [], t, rfl, by simpa using hacc, fun _ => rfl, .operator_missed h⟩
    | @took f r t' ht hf h =>
      subst ht
      cases hw r t' rfl with
      | missed h' =>
        exact ⟨acc, [], r ++ t', rfl, by simpa using hacc, fun _ => rfl, .operand_missed h h'⟩
      | @took w u t'' ht' hL h' =>
        subst ht'
        obtain ⟨x, hx, hMx⟩ := hM b acc r f u w hacc hf hL
        have hne := hK r f hf
        have hlt : t''.length < n := by
          have := List.length_pos_iff.2 hne
          rw [← hn, List.length_append, List.length_append]; omega
        have hsplit : ∀ s' u', t'' = s' ++ u' → r ++ (u ++ t'') = (r ++ (u ++ s')) ++ u' := by
          intro s' u' hu; rw [hu]; simp
        obtain ⟨v, s, y, ht, hMv, -, hrest⟩ := ih _ hlt (fun s' u' hu => hop _ u' (hsplit s' u' hu))
          (fun s' u' hu => hw _ u' (hsplit s' u' hu)) hMx rfl
        refine ⟨v, (r ++ u) ++ s, y, by rw [ht]; simp, by simpa using hMv, fun hnil => ?_,
          .next h hne h' hx hrest⟩
        exact absurd hnil (by simp [hne])

theorem Reads.chainLeft {operand : Parser ρ α} {operator : Parser ρ (α → α → Except Fault α)}
    {L M : Text → α → Prop} {K : Text → (α → α → Except Fault α) → Prop} {t : Text}
    (hL : ∀ s v, L s v → M s v)
    (hM : ∀ s v r f u w, M s v → K r f → L u w → ∃ x, f v w = .ok x ∧ M (s ++ (r ++ u)) x)
    (hK : ∀ r f, K r f → r ≠ [])
    (hop : ∀ s u, t = s ++ u → operator.Reads rules verbose K u)
    (hw : ∀ s u, t = s ++ u → operand.Reads rules verbose L u) :
    (Parser.chainLeft operand operator).Reads rules verbose M t := by
  cases hw [] t rfl with
  | missed h => exact .missed h.chainLeft
  | @took v s u ht hLv h =>
    subst ht
    have hsplit : ∀ s' u', u = s' ++ u' → s ++ u = (s ++ s') ++ u' := by
      intro s' u' hu; rw [hu, List.append_assoc]
    obtain ⟨x, r, y, hu, hMx, -, hrest⟩ := Continues.reads hM hK
      (fun s' u' hu => hop _ u' (hsplit s' u' hu)) (fun s' u' hu => hw _ u' (hsplit s' u' hu))
      (hL s v hLv)
    exact .took (by rw [hu, List.append_assoc]) hMx (h.chainLeft hrest)

end Parser
end Descent
