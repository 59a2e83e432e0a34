import Descent.Proofs.Evaluation
import Mathlib.Data.List.Forall2

/-!
# Answers of sequences and literals

The rules of evaluation for the derived parsers: sequences that keep one value, options, character
classes and runs of them, exact literals. `Stops accepts t` says that no character of a class comes
next, which is where a run of the class ends.
-/

namespace Descent

/-- No character that is accepted comes next. -/
def Stops (accepts : CodePoint → Bool) (t : Text) : Prop := ∀ x ∈ t.head?, accepts x = false

namespace Stops

variable {accepts : CodePoint → Bool} {x : CodePoint} {t u : Text}

theorem nil : Stops accepts [] := nofun

theorem cons_iff : Stops accepts (x :: t) ↔ accepts x = false := by simp [Stops]

theorem not_mem_head (h : Stops accepts t) (hx : accepts x = true) : x ∉ t.head? :=
  fun hmem => absurd hx (by simp [h x hmem])

/-- Every text is a run of a class followed by something else. -/
theorem split (accepts : CodePoint → Bool) (t : Text) :
    ∃ s u, t = s ++ u ∧ (∀ x ∈ s, accepts x = true) ∧ Stops accepts u := by
  induction t with
  | nil => exact ⟨[], [], rfl, nofun, nil⟩
  | cons x t ih =>
    cases hx : accepts x with
    | false => exact ⟨[], x :: t, rfl, nofun, cons_iff.2 hx⟩
    | true =>
      obtain ⟨s, u, rfl, hs, hu⟩ := ih
      exact ⟨x :: s, u, rfl, List.forall_mem_cons.2 ⟨hx, hs⟩, hu⟩

/-- A run that goes on to the end of its class is the longest one. -/
theorem prefix_of_append_eq {s s' : Text} (hs' : ∀ x ∈ s', accepts x = true)
    (hu : Stops accepts u) {u' : Text} (h : s' ++ u' = s ++ u) : s' <+: s := by
  rcases List.append_eq_append_iff.1 h with ⟨r, hr, -⟩ | ⟨r, hr, hru⟩
  · exact ⟨r, hr.symm⟩
  · cases r with
    | nil => simp [hr]
    | cons x r =>
      have hx : accepts x = true := hs' x (by simp [hr])
      rw [hru] at hu
      exact absurd (cons_iff.1 hu) (by simp [hx])

/-- A text has one split into a run of a class and what follows it. -/
theorem append_inj {s s' : Text} (hs : ∀ x ∈ s, accepts x = true)
    (hs' : ∀ x ∈ s', accepts x = true) (hu : Stops accepts u) {u' : Text} (hu' : Stops accepts u')
    (h : s' ++ u' = s ++ u) : s' = s ∧ u' = u := by
  have hlen : s'.length = s.length := Nat.le_antisymm (prefix_of_append_eq hs' hu h).length_le
    (prefix_of_append_eq hs hu' h.symm).length_le
  exact List.append_inj h hlen

theorem takeWhile (h : Stops accepts t) : t.takeWhile accepts = [] := by
  cases t with
  | nil => rfl
  | cons x t => exact List.takeWhile_cons_of_neg (by simpa using cons_iff.1 h)

theorem takeWhile_append {s : Text} (hs : ∀ x ∈ s, accepts x = true) (hu : Stops accepts u) :
    (s ++ u).takeWhile accepts = s := by
  rw [List.takeWhile_append_of_pos hs, hu.takeWhile, List.append_nil]

end Stops

/-- Where a text does not start with `s`, it parts from it in front of a character of `s`. -/
theorem exists_mismatch {s t : Text} (h : ¬ s <+: t) :
    ∃ v x w u, s = v ++ x :: w ∧ t = v ++ u ∧ x ∉ u.head? := by
  induction s generalizing t with
  | nil => exact absurd List.nil_prefix h
  | cons x s ih =>
    by_cases hx : x ∈ t.head?
    · cases t with
      | nil => cases hx
      | cons y t =>
        obtain rfl : y = x := Option.some.inj hx
        obtain ⟨v, z, w, u, rfl, rfl, hz⟩ := ih fun hs => h (List.prefix_cons_inj y |>.2 hs)
        exact ⟨y :: v, z, w, u, rfl, rfl, hz⟩
    · exact ⟨[], x, s, t, rfl, rfl, hx⟩

/-- What goes on behind a word does so with a character that can. -/
theorem not_stops_behind {C : CodePoint → Bool} {s r u : Text} {y : CodePoint}
    (hr : s ++ y :: r <+: s ++ u) (hy : C y = true) : ¬ Stops C u := by
  rcases hr with ⟨z, hz⟩
  rw [List.append_assoc, List.append_cancel_left_eq] at hz
  intro hu
  rw [← hz] at hu
  exact absurd (Stops.cons_iff.1 hu) (by simp [hy])

namespace Parser

variable {ρ : Type → Type} {rules : Rules ρ} {verbose : Bool} {α β γ : Type}

/-! ### Sequences and options -/

section
variable {p : Parser ρ α} {q : Parser ρ β} {r : Parser ρ γ} {s t u w x : Text} {v : α}

theorem Answers.map (f : α → β) (hp : p.Answers rules verbose t (.took v s)) :
    (p.map f).Answers rules verbose t (.took (f v) s) := hp.tryMap _

theorem Answers.keepRight {b : Answer β} (hp : p.Answers rules verbose (s ++ t) (.took v s))
    (hq : q.Answers rules verbose t b) :
    (p.keepRight q).Answers rules verbose (s ++ t) (b.behind s) := hp.bind hq

theorem Answers.keepLeft {y : β} (hp : p.Answers rules verbose (s ++ (u ++ t)) (.took v s))
    (hq : q.Answers rules verbose (u ++ t) (.took y u)) :
    (p.keepLeft q).Answers rules verbose (s ++ (u ++ t)) (.took v (s ++ u)) :=
  hp.bind (k := fun v => q.map fun _ => v) (hq.map _)

theorem Answers.between {y : β} {z : γ} (hq : q.Answers rules verbose (s ++ (u ++ (w ++ t))) (.took y s))
    (hp : p.Answers rules verbose (u ++ (w ++ t)) (.took v u))
    (hr : r.Answers rules verbose (w ++ t) (.took z w)) :
    (Parser.between q r p).Answers rules verbose (s ++ (u ++ (w ++ t)))
      (.took v (s ++ (u ++ w))) := by
  have h := hq.bind (k := fun _ => p.bind fun v => r.bind fun _ => Parser.pure v)
    (hp.bind (hr.bind (.pure v t)))
  simp only [Answer.behind, List.append_nil] at h
  exact h

theorem Answers.option (d : α) (hp : p.Answers rules verbose t (.took v s)) :
    (Parser.option d p).Answers rules verbose t (.took v s) := hp.orElse (by simp)

theorem Answers.option_missed (d : α) (hp : p.Misses rules verbose t) :
    (Parser.option d p).Answers rules verbose t (.took d []) := .orElse_missed hp (.pure d t)

theorem Answers.some {vs : List α} (hp : p.Answers rules verbose (s ++ t) (.took v s))
    (h : p.many.Answers rules verbose t (.took vs u)) :
    p.some.Answers rules verbose (s ++ t) (.took (v :: vs) (s ++ u)) :=
  hp.bind (k := fun v => p.many.map fun vs => v :: vs) (h.map _)

theorem Answers.sepBySome {vs : List α} (hp : p.Answers rules verbose (s ++ t) (.took v s))
    (h : (q.keepRight p).many.Answers rules verbose t (.took vs u)) :
    (p.sepBySome q).Answers rules verbose (s ++ t) (.took (v :: vs) (s ++ u)) :=
  hp.bind (k := fun v => (q.keepRight p).many.map fun vs => v :: vs) (h.map _)

theorem Misses.bind {k : α → Parser ρ β} (hp : p.Misses rules verbose t) :
    (p.bind k).Misses rules verbose t := by
  rcases hp with ⟨s, message, hp⟩
  exact ⟨s, message, hp.bind_missed⟩

theorem Answers.bind_misses {k : α → Parser ρ β}
    (hp : p.Answers rules verbose (s ++ t) (.took v s)) (hk : (k v).Misses rules verbose t) :
    (p.bind k).Misses rules verbose (s ++ t) := by
  rcases hk with ⟨u, message, hk⟩
  exact ⟨_, _, hp.bind hk⟩

theorem Misses.ref {r : ρ α} (h : (rules _ r).Misses rules verbose t) :
    (Parser.ref r).Misses rules verbose t := by
  rcases h with ⟨s, message, h⟩
  exact ⟨s, message, h.ref⟩

theorem Misses.tryMap (f : α → Except Fault β) (hp : p.Misses rules verbose t) :
    (p.tryMap f).Misses rules verbose t := by
  rcases hp with ⟨s, message, hp⟩
  exact ⟨s, message, hp.tryMap f⟩

theorem Misses.map (f : α → β) (hp : p.Misses rules verbose t) :
    (p.map f).Misses rules verbose t := hp.tryMap _

theorem Answers.filter_true {accepts : α → Bool} {shown : α → Except Fault Text}
    {description : Text} (hp : p.Answers rules verbose t (.took v s)) (hv : accepts v = true) :
    (p.filter (fun v => .ok (accepts v)) shown description).Answers rules verbose t
      (.took v s) := by
  have h := hp.filter (fun v => .ok (accepts v)) shown description
  simp only [Answer.filter, hv] at h
  exact h

theorem Answers.filter_false {accepts : α → Bool} {shown : α → Text} {description : Text}
    (hp : p.Answers rules verbose t (.took v s)) (hv : accepts v = false) :
    (p.filter (fun v => .ok (accepts v)) (fun v => .ok (shown v)) description).Misses
      rules verbose t := by
  have h := hp.filter (fun v => .ok (accepts v)) (fun v => .ok (shown v)) description
  simp only [Answer.filter, hv] at h
  exact ⟨_, _, h⟩

theorem Misses.filter {accepts : α → Except Fault Bool} {shown : α → Except Fault Text}
    {description : Text} (hp : p.Misses rules verbose t) :
    (p.filter accepts shown description).Misses rules verbose t := by
  rcases hp with ⟨s, message, hp⟩
  exact ⟨s, _, hp.filter accepts shown description⟩

theorem Misses.orElse {q : Parser ρ α} (hp : p.Misses rules verbose t)
    (hq : q.Misses rules verbose t) : (p.orElse q).Misses rules verbose t := by
  rcases hq with ⟨s, message, hq⟩
  exact ⟨s, message, .orElse_missed hp hq⟩

end

/-! ### Choices -/

/-- A parser that misses where no character of a class comes next. -/
def StartsIn (rules : Rules ρ) (verbose : Bool) (p : Parser ρ α) (C : CodePoint → Bool) : Prop :=
  ∀ t, Stops C t → p.Misses rules verbose t

section
variable {ps : List (Parser ρ α)} {p : Parser ρ α} {Cs : List (CodePoint → Bool)} {y : CodePoint}
  {t : Text} {a : Answer α}

theorem Misses.firstOf (hne : ps ≠ []) (h : ∀ p ∈ ps, p.Misses rules verbose t) :
    (Parser.firstOf ps).Misses rules verbose t := by
  obtain ⟨s, message, hlast⟩ := h _ (List.getLast_mem hne)
  refine ⟨s, message, ?_⟩
  rw [← List.dropLast_append_getLast hne]
  exact .firstOf _ [] (fun q hq => h q (List.dropLast_subset _ hq)) hlast (.inr rfl)

/-- Parsers miss in front of a character that none of them starts with. -/
theorem misses_of_startsIn (hps : List.Forall₂ (StartsIn rules verbose) ps Cs) (hy : y ∈ t.head?)
    (hC : ∀ C ∈ Cs, C y = false) : ∀ p ∈ ps, p.Misses rules verbose t := by
  induction hps with
  | nil => exact nofun
  | cons hp _ ih =>
    obtain ⟨hCy, hC⟩ := List.forall_mem_cons.1 hC
    refine List.forall_mem_cons.2 ⟨hp t fun x hx => ?_, ih hC⟩
    rw [Option.mem_unique hx hy]
    exact hCy

/-- Of parsers that start with different characters all but one miss. -/
theorem pairwise_misses (hps : List.Forall₂ (StartsIn rules verbose) ps Cs)
    (hCs : Cs.Pairwise fun C D => ∀ x, C x = false ∨ D x = false) (t : Text) :
    ps.Pairwise fun p q => p.Misses rules verbose t ∨ q.Misses rules verbose t := by
  induction hps with
  | nil => exact .nil
  | @cons p C ps Cs hp hrest ih =>
    obtain ⟨hC, hCs⟩ := List.pairwise_cons.1 hCs
    refine List.pairwise_cons.2 ⟨fun q hq => ?_, ih hCs⟩
    by_cases hstop : Stops C t
    · exact .inl (hp t hstop)
    · obtain ⟨y, hy, hCy⟩ : ∃ y ∈ t.head?, C y = true := by simpa [Stops] using hstop
      refine .inr (misses_of_startsIn hrest hy (fun D hD => ?_) q hq)
      exact (hC D hD y).resolve_left (by simp [hCy])

/-- The first character leads past the parsers that do not start with it. -/
theorem Answers.firstOf_at (hps : List.Forall₂ (StartsIn rules verbose) ps Cs) (k : Nat)
    (hk : ps[k]? = .some p) (hy : y ∈ t.head?) (hC : ∀ C ∈ Cs.take k, C y = false)
    (ha : ∀ s message, a ≠ .missed s message) (hp : p.Answers rules verbose t a) :
    (Parser.firstOf ps).Answers rules verbose t a := by
  obtain ⟨hlt, rfl⟩ := List.getElem?_eq_some_iff.1 hk
  rw [← List.take_append_drop k ps, List.drop_eq_getElem_cons hlt]
  exact .firstOf _ _ (misses_of_startsIn (List.forall₂_take k hps) hy hC) hp (.inl ha)

end

/-! ### Characters -/

/-- The message of a class in front of a text that does not start with it. -/
def expected (description : Text) : Text → Text
  | [] => "Expected " ++ description ++ ", but reached the end of input"
  | x :: _ => "Expected " ++ description ++ ", but got " ++ [x]

/-- The message tells which character was expected. -/
theorem eq_of_expected_eq {c d : CodePoint} {t u : Text} (h : expected [c] t = expected [d] u) :
    c = d := by
  have hshown (c : CodePoint) (t : Text) : (expected [c] t)[9]? = Option.some c := by
    cases t <;> rfl
  exact Option.some.inj ((hshown c t).symm.trans ((congrArg (·[9]?) h).trans (hshown d u)))

section
variable {accepts : CodePoint → Bool} {description : Text} {x : CodePoint} {t : Text}

theorem Answers.satisfy (h : accepts x = true) (t : Text) :
    (Parser.satisfy (ρ := ρ) accepts description).Answers rules verbose (x :: t) (.took x [x]) :=
  (anyChar_cons x t).filter_true h

theorem Answers.satisfy_missed (h : Stops accepts t) :
    (Parser.satisfy (ρ := ρ) accepts description).Answers rules verbose t
      (.missed [] (expected description t)) := by
  cases t with
  | nil => exact anyChar_nil.filter _ _ description
  | cons x t =>
    have hx : accepts x = false := Stops.cons_iff.1 h
    have hfilter : (Parser.satisfy (ρ := ρ) accepts description).Answers rules verbose (x :: t) _ :=
      (anyChar_cons x t).filter (fun c => .ok (accepts c)) (fun c => .ok [c]) description
    simp only [Answer.filter, hx] at hfilter
    exact hfilter

theorem Misses.satisfy (h : Stops accepts t) :
    (Parser.satisfy (ρ := ρ) accepts description).Misses rules verbose t :=
  ⟨_, _, .satisfy_missed h⟩

/-- A repeated class takes the longest run of it. -/
theorem Answers.many_satisfy {s : Text} (hs : ∀ x ∈ s, accepts x = true) (ht : Stops accepts t) :
    (Parser.satisfy (ρ := ρ) accepts description).many.Answers rules verbose (s ++ t)
      (.took s s) := by
  induction s with
  | nil => exact .many_missed (.satisfy ht)
  | cons x s ih =>
    have hxs := List.forall_mem_cons.1 hs
    exact .many (.satisfy hxs.1 (s ++ t)) (List.cons_ne_nil x []) (ih hxs.2)

theorem Answers.many_satisfy_takeWhile (t : Text) :
    (Parser.satisfy (ρ := ρ) accepts description).many.Answers rules verbose t
      (.took (t.takeWhile accepts) (t.takeWhile accepts)) := by
  obtain ⟨s, u, rfl, hs, hu⟩ := Stops.split accepts t
  rw [Stops.takeWhile_append hs hu]
  exact .many_satisfy hs hu

theorem Answers.some_satisfy {s : Text} (hne : s ≠ []) (hs : ∀ x ∈ s, accepts x = true)
    (ht : Stops accepts t) :
    (Parser.satisfy (ρ := ρ) accepts description).some.Answers rules verbose (s ++ t)
      (.took s s) := by
  cases s with
  | nil => exact absurd rfl hne
  | cons x s =>
    have hxs := List.forall_mem_cons.1 hs
    exact .some (.satisfy hxs.1 (s ++ t)) (.many_satisfy hxs.2 ht)

end

section
variable {c : CodePoint} {s t u : Text}

theorem Answers.char (c : CodePoint) (t : Text) :
    (Parser.char (ρ := ρ) c).Answers rules verbose (c :: t) (.took c [c]) :=
  .satisfy (decide_eq_true rfl) t

theorem Answers.char_missed (h : c ∉ t.head?) :
    (Parser.char (ρ := ρ) c).Answers rules verbose t (.missed [] (expected [c] t)) :=
  .satisfy_missed fun _ hx => decide_eq_false fun e => h (e ▸ hx)

theorem Misses.char (h : c ∉ t.head?) : (Parser.char (ρ := ρ) c).Misses rules verbose t :=
  ⟨_, _, .char_missed h⟩

theorem Answers.string (s t : Text) :
    (Parser.string (ρ := ρ) s).Answers rules verbose (s ++ t) (.took s s) := by
  induction s with
  | nil => exact .pure [] t
  | cons c s ih =>
    exact (Answers.char c (s ++ t)).bind (s := [c]) (b := .took (c :: s) s) (ih.map _)

/-- A literal misses at the first character that is not the one expected. -/
theorem Answers.string_missed (s v : Text) (h : c ∉ t.head?) :
    (Parser.string (ρ := ρ) (s ++ c :: v)).Answers rules verbose (s ++ t)
      (.missed s (expected [c] t)) := by
  induction s with
  | nil => exact (Answers.char_missed h).bind_missed
  | cons d s ih =>
    exact (Answers.char d (s ++ t)).bind (s := [d]) (b := .missed s _) (ih.tryMap _)

theorem Misses.string (h : ¬ s <+: t) : (Parser.string (ρ := ρ) s).Misses rules verbose t := by
  obtain ⟨v, x, w, u, rfl, rfl, hx⟩ := exists_mismatch h
  exact ⟨_, _, .string_missed v w hx⟩

def AreDigits (s : Text) : Prop := ∀ x ∈ s, x.IsDigit

theorem Answers.digits (hne : s ≠ []) (hs : AreDigits s) (ht : Stops (·.IsDigit) t) :
    (Parser.digits (ρ := ρ)).Answers rules verbose (s ++ t) (.took s s) :=
  .some_satisfy hne (fun x hx => decide_eq_true (hs x hx)) ht

theorem Misses.digits (ht : Stops (·.IsDigit) t) :
    (Parser.digits (ρ := ρ)).Misses rules verbose t := (Misses.satisfy ht).bind

def AreBlank (s : Text) : Prop := ∀ x ∈ s, x ∈ blanks

theorem Answers.whitespaces (hs : AreBlank s) (ht : Stops (· ∈ blanks) t) :
    (Parser.whitespaces (ρ := ρ)).Answers rules verbose (s ++ t) (.took s s) :=
  .many_satisfy (fun x hx => decide_eq_true (hs x hx)) ht

theorem exists_blank (t : Text) : ∃ s u, t = s ++ u ∧ AreBlank s ∧ Stops (· ∈ blanks) u := by
  obtain ⟨s, u, ht, hs, hu⟩ := Stops.split (· ∈ blanks) t
  exact ⟨s, u, ht, fun x hx => of_decide_eq_true (hs x hx), hu⟩

theorem exists_digits (t : Text) : ∃ s u, t = s ++ u ∧ AreDigits s ∧ Stops (·.IsDigit) u := by
  obtain ⟨s, u, ht, hs, hu⟩ := Stops.split (·.IsDigit) t
  exact ⟨s, u, ht, fun x hx => of_decide_eq_true (hs x hx), hu⟩

end

end Parser
end Descent
