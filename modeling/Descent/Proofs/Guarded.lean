import Descent.Proofs.Calls
import Descent.Proofs.Recognition

/-!
# Guarded parsers

A grammar that refers to itself ends on every text if it takes an opening character before each
reference and something in each round of a repetition. `Guarded G n b p` says so of a parser `p`:
calls nest at most `n` deep in it up to the next reference, and `b` tells whether an opening
character has been taken, without which it must not refer to a rule. Conversions that may fault do
so only for a reason that `G` names.

If all rules are guarded, then a guarded parser ends wherever it is started, at a depth that is
linear in the number of opening characters (`Guarded.ends`), and whatever it runs is guarded as well
(`Guarded.runs`).
-/

namespace Descent

namespace Parser

variable {ρ : Type → Type} {rules : Rules ρ} {verbose : Bool} {α β γ : Type}
  {p : Parser ρ α} {c d : Cursor} {v : α} {s t : Text}

/-! ### Parsers that consume -/

/-- No success of `p` leaves the text as it was. -/
def Consumes (rules : Rules ρ) (verbose : Bool) (p : Parser ρ α) : Prop :=
  ∀ t v, ¬ p.Answers rules verbose t (.took v [])

theorem consumes_iff :
    p.Consumes rules verbose ↔ ∀ c v d, p.Succeeds rules verbose c v d → c.offset < d.offset := by
  constructor
  · intro h c v d hv
    obtain ⟨s, hs, hd⟩ := hv.took
    have hne : s ≠ [] := by rintro rfl; exact h _ v hs
    have hlen := List.length_pos_iff.2 hne
    rw [hd.offset]; omega
  · intro h t v hv
    obtain ⟨r, ⟨-, n, rfl⟩, hr⟩ := hv.reaches (Cursor.unread_start t [])
    exact Nat.lt_irrefl _ (h _ v _ ⟨n, hr⟩)

namespace Consumes

theorem satisfy (accepts : CodePoint → Bool) (description : Text) :
    (Parser.satisfy (ρ := ρ) accepts description).Consumes rules verbose := by
  intro t v h
  obtain ⟨hs, -⟩ := (Reads.satisfy accepts description t).sound h
  exact nomatch hs

theorem bind {k : α → Parser ρ β} (hp : p.Consumes rules verbose) :
    (p.bind k).Consumes rules verbose := by
  rw [consumes_iff] at hp ⊢
  intro c w e h
  obtain ⟨v, d, hv, hw⟩ := h.of_bind
  obtain ⟨s, hs⟩ := hw.leads
  exact Nat.lt_of_lt_of_le (hp c v d hv) (by rw [hs.offset]; omega)

theorem tryMap (f : α → Except Fault β) (hp : p.Consumes rules verbose) :
    (p.tryMap f).Consumes rules verbose := by
  rw [consumes_iff] at hp ⊢
  intro c w d hw
  obtain ⟨v, hv, -⟩ := hw.of_tryMap
  exact hp c v d hv

theorem orElse {q : Parser ρ α} (hp : p.Consumes rules verbose) (hq : q.Consumes rules verbose) :
    (p.orElse q).Consumes rules verbose := by
  rw [consumes_iff] at hp hq ⊢
  intro c v d h
  exact h.of_orElse.elim (hp c v d) (hq c v d)

end Consumes

/-! ### The judgement -/

/-- What a grammar has to keep to: the characters that open a nested value, and the reasons for
which conversions may fault. -/
structure Guard (ρ : Type → Type) where
  rules : Rules ρ
  verbose : Bool
  opens : CodePoint → Bool
  faults : Fault → Prop

/-- No character opens a nested value: what keeps to this refers to no rule. -/
def Guard.closed (rules : Rules ρ) (verbose : Bool) : Guard ρ :=
  ⟨rules, verbose, fun _ => false, fun _ => True⟩

/-- Calls nest at most `n` deep in a parser up to the next reference, and a reference stands behind
an opening character, unless one has been taken before (`b`). -/
def Guarded (G : Guard ρ) : Nat → Bool → {α : Type} → Parser ρ α → Prop
  | 0, _, _, _ => False
  | _ + 1, _, _, anyChar | _ + 1, _, _, eof | _ + 1, _, _, .pure _ | _ + 1, _, _, fail _ => True
  | _ + 1, _, _, throw e => G.faults e
  | n + 1, b, _, bind p k => Guarded G n b p ∧
      ∀ t v s, p.Answers G.rules G.verbose t (.took v s) → Guarded G n (b || s.any G.opens) (k v)
  | n + 1, b, _, tryMap f p => Guarded G n b p ∧
      ∀ t v s e, p.Answers G.rules G.verbose t (.took v s) → f v = .error e → G.faults e
  | n + 1, b, _, filter accepts shown _ p => Guarded G n b p ∧
      ∀ t v s e, p.Answers G.rules G.verbose t (.took v s) →
        accepts v = .error e ∨ shown v = .error e → G.faults e
  | n + 1, b, _, label _ p | n + 1, b, _, delay _ p => Guarded G n b p
  | n + 1, b, _, orElse p q => Guarded G n b p ∧ Guarded G n b q
  | n + 1, b, _, anyOf _ ps => ∀ i, Guarded G n b (ps i)
  | n + 1, b, _, many p => Guarded G n b p ∧ p.Consumes G.rules G.verbose
  | n + 1, b, _, chainLeft operand operator => Guarded G n b operand ∧ Guarded G n b operator ∧
      operator.Consumes G.rules G.verbose ∧
      ∀ t f s v w e, operator.Answers G.rules G.verbose t (.took f s) → f v w = .error e →
        G.faults e
  | n + 1, b, _, trace _ shown p => Guarded G n b p ∧
      ∀ t v s e, p.Answers G.rules G.verbose t (.took v s) → shown v = .error e → G.faults e
  | _ + 1, b, _, ref _ => b = true

namespace Guarded

variable {G : Guard ρ} {n m N k : Nat} {b : Bool}

theorem mono {b' : Bool} (h : Guarded G n b p) (hnm : n ≤ m) (hb : b = true → b' = true) :
    Guarded G m b' p := by
  induction n generalizing m b b' α with
  | zero => exact h.elim
  | succ n ih =>
    obtain ⟨m, rfl⟩ : ∃ k, m = k + 1 := ⟨m - 1, by omega⟩
    have hle : n ≤ m := by omega
    cases p with
    | anyChar | eof | pure | fail => trivial
    | throw => exact h
    | bind p k =>
      refine ⟨ih h.1 hle hb, fun t v s ht => ih (h.2 t v s ht) hle fun hs => ?_⟩
      rcases Bool.or_eq_true_iff.1 hs with hs | hs <;> simp [hs, hb]
    | tryMap f p => exact ⟨ih h.1 hle hb, h.2⟩
    | filter accepts shown description p => exact ⟨ih h.1 hle hb, h.2⟩
    | label description p => exact ih (p := p) h hle hb
    | delay note p => exact ih (p := p) h hle hb
    | orElse p q => exact ⟨ih h.1 hle hb, ih h.2 hle hb⟩
    | anyOf k ps =>
      have hps : ∀ i, Guarded G n b (ps i) := h
      exact fun i => ih (hps i) hle hb
    | many p => exact ⟨ih h.1 hle hb, h.2⟩
    | chainLeft operand operator => exact ⟨ih h.1 hle hb, ih h.2.1 hle hb, h.2.2⟩
    | trace name shown p => exact ⟨ih h.1 hle hb, h.2⟩
    | ref r =>
      have href : b = true := h
      exact hb href

theorem deeper (h : Guarded G n b p) (hnm : n ≤ m) : Guarded G m b p := h.mono hnm id

theorem one_le (h : Guarded G n b p) : 1 ≤ n := by
  cases n with
  | zero => exact h.elim
  | succ n => omega

/-! ### Derived parsers -/

section
variable {q : Parser ρ β} {r : Parser ρ γ}

theorem pure (v : α) (hn : 1 ≤ n) : Guarded G n b (.pure v : Parser ρ α) := by
  obtain ⟨n, rfl⟩ : ∃ k, n = k + 1 := ⟨n - 1, by omega⟩
  trivial

theorem bind {k : α → Parser ρ β} (hp : Guarded G n b p)
    (hk : ∀ t v s, p.Answers G.rules G.verbose t (.took v s) → Guarded G n b (k v)) :
    Guarded G (n + 1) b (p.bind k) :=
  ⟨hp, fun t v s h => (hk t v s h).mono (Nat.le_refl n) fun hb => by simp [hb]⟩

/-- Behind a parser that takes an opening character references are allowed. -/
theorem bind_open {k : α → Parser ρ β} (hp : Guarded G n b p)
    (hopen : ∀ t v s, p.Answers G.rules G.verbose t (.took v s) → s.any G.opens = true)
    (hk : ∀ v, Guarded G n true (k v)) : Guarded G (n + 1) b (p.bind k) :=
  ⟨hp, fun t v s h => (hk v).mono (Nat.le_refl n) fun _ => by simp [hopen t v s h]⟩

theorem map (f : α → β) (hp : Guarded G n b p) : Guarded G (n + 1) b (p.map f) :=
  ⟨hp, fun _ _ _ _ _ he => nomatch he⟩

theorem keepRight (hp : Guarded G n b p) (hq : Guarded G n b q) :
    Guarded G (n + 1) b (p.keepRight q) := hp.bind fun _ _ _ _ => hq

theorem keepLeft (hp : Guarded G (n + 1) b p) (hq : Guarded G n b q) :
    Guarded G (n + 2) b (p.keepLeft q) := hp.bind fun _ _ _ _ => hq.map _

theorem between (hq : Guarded G (n + 2) b q) (hp : Guarded G (n + 1) b p) (hr : Guarded G n b r) :
    Guarded G (n + 3) b (Parser.between q r p) :=
  hq.bind fun _ _ _ _ => hp.bind fun _ v _ _ => hr.bind fun _ _ _ _ => .pure v hr.one_le

theorem between_open (hq : Guarded G (n + 2) b q)
    (hopen : ∀ t v s, q.Answers G.rules G.verbose t (.took v s) → s.any G.opens = true)
    (hp : Guarded G (n + 1) true p) (hr : Guarded G n true r) :
    Guarded G (n + 3) b (Parser.between q r p) :=
  hq.bind_open hopen fun _ => hp.bind fun _ v _ _ => hr.bind fun _ _ _ _ => .pure v hr.one_le

theorem option (d : α) (hp : Guarded G n b p) : Guarded G (n + 1) b (Parser.option d p) :=
  ⟨hp, .pure d hp.one_le⟩

theorem firstOf {ps : List (Parser ρ α)} (h : ∀ p ∈ ps, Guarded G n b p) :
    Guarded G (n + 1) b (Parser.firstOf ps) := fun i => h _ (List.getElem_mem i.isLt)

theorem some (hp : Guarded G n b p) (hne : p.Consumes G.rules G.verbose) :
    Guarded G (n + 3) b p.some := by
  have hmany : Guarded G (n + 1) b p.many := ⟨hp, hne⟩
  exact (hp.deeper (Nat.le_add_right n 2)).bind fun _ _ _ _ => hmany.map _

theorem sepBySome (hp : Guarded G n b p) (hq : Guarded G n b q)
    (hne : q.Consumes G.rules G.verbose) : Guarded G (n + 4) b (p.sepBySome q) := by
  have hmany : Guarded G (n + 2) b (q.keepRight p).many := ⟨hq.keepRight hp, hne.bind⟩
  exact (hp.deeper (Nat.le_add_right n 3)).bind fun _ _ _ _ => hmany.map _

end

theorem satisfy (accepts : CodePoint → Bool) (description : Text) :
    Guarded G 2 b (Parser.satisfy (ρ := ρ) accepts description) :=
  ⟨trivial, fun _ _ _ _ _ he => he.elim nofun nofun⟩

theorem char (x : CodePoint) : Guarded G 2 b (Parser.char (ρ := ρ) x) := .satisfy _ _

theorem digits : Guarded G 5 b (Parser.digits (ρ := ρ)) :=
  Guarded.some (.satisfy _ _) (.satisfy _ _)

theorem whitespaces : Guarded G 3 b (Parser.whitespaces (ρ := ρ)) :=
  ⟨.satisfy _ _, .satisfy _ _⟩

theorem string (s : Text) : Guarded G (2 * s.length + 1) b (Parser.string (ρ := ρ) s) := by
  induction s with
  | nil => trivial
  | cons x s ih =>
    have hchar : Guarded G (2 * s.length + 2) b (Parser.char (ρ := ρ) x) :=
      (char x).deeper (Nat.le_add_left 2 _)
    exact hchar.bind fun _ _ _ _ => ih.map _

theorem token (hp : Guarded G (n + 4) b p) : Guarded G (n + 5) b (Parser.token p) :=
  hp.keepLeft (n := n + 3) (whitespaces.deeper (Nat.le_add_left 3 n))

/-! ### Guarded parsers end -/

end Guarded

/-- At most `k` references can still follow on one another: each takes an opening character, but for
the first one if a character has been taken for it. -/
def Guard.Allows (G : Guard ρ) (b : Bool) (k : Nat) (c : Cursor) : Prop :=
  c.unread.countP G.opens + b.toNat ≤ k

namespace Guard.Allows

variable {G : Guard ρ} {b : Bool} {k : Nat}

theorem behind (h : G.Allows b k c) (hs : c.Leads s d) : G.Allows (b || s.any G.opens) k d := by
  refine Nat.le_trans ?_ h
  rw [hs.countP_eq]
  cases b with
  | true => simp
  | false =>
    cases hany : s.any G.opens with
    | false => simp
    | true =>
      obtain ⟨x, hx, hopen⟩ := List.any_eq_true.1 hany
      have : 0 < s.countP G.opens := List.countP_pos_iff.2 ⟨x, hx, hopen⟩
      simp only [Bool.false_or, Bool.toNat_true, Bool.toNat_false]
      omega

theorem left {b' : Bool} (h : G.Allows (b || b') k c) : G.Allows b k c := by
  cases b with
  | false => exact Nat.le_trans (Nat.add_le_add_left (Nat.zero_le _) _) h
  | true => exact h

/-- What a success leaves behind. -/
theorem took (h : G.Allows b k c) (hv : p.Succeeds G.rules G.verbose c v d) :
    ∃ s, p.Answers G.rules G.verbose c.unread (.took v s) ∧ c.Leads s d ∧
      G.Allows (b || s.any G.opens) k d := by
  obtain ⟨s, hs, hd⟩ := hv.took
  exact ⟨s, hs, hd, h.behind hd⟩

end Guard.Allows

namespace Guarded

variable {G : Guard ρ} {n N k : Nat} {b : Bool}

/-- A guarded parser ends if the rules do on texts with fewer opening characters. -/
theorem ends_of_rules {D : Nat} (hrules : ∀ {α : Type} (r : ρ α) (c : Cursor),
      c.unread.countP G.opens < k → ((G.rules _ r).run G.rules G.verbose D c).Ends G.faults)
    (h : Guarded G n b p) (hk : G.Allows b k c) :
    (p.run G.rules G.verbose (n + D) c).Ends G.faults := by
  induction n generalizing b α c with
  | zero => exact h.elim
  | succ n ih =>
    rw [Nat.add_right_comm]
    cases p with
    | anyChar => exact .readChar c
    | eof => exact .readEnd c
    | pure v => exact .success v c
    | fail message => exact .failure _
    | throw e => exact .fault h
    | bind p q =>
      refine (ih h.1 hk).andThen fun v d hv => ?_
      obtain ⟨s, hs, -, hk⟩ := hk.took ⟨_, hv⟩
      exact ih (h.2 _ v s hs) hk
    | tryMap f p =>
      refine (ih h.1 hk).tryMap fun v d e hv hf => ?_
      obtain ⟨s, hs, -⟩ := hk.took ⟨_, hv⟩
      exact h.2 _ v s e hs hf
    | filter accepts shown description p =>
      refine (ih h.1 hk).filter fun v d e hv hf => ?_
      obtain ⟨s, hs, -⟩ := hk.took ⟨_, hv⟩
      exact h.2 _ v s e hs hf
    | label description p => exact (ih (p := p) h hk).label
    | orElse p q => exact (ih h.1 hk).orElse (ih h.2 hk)
    | anyOf j ps =>
      have hps : ∀ i, Guarded G n b (ps i) := h
      refine Run.Ends.firstOf fun attempt hmem => ?_
      obtain ⟨i, rfl⟩ := List.mem_ofFn.1 hmem
      exact ih (hps i) hk
    | many p =>
      have hrounds : Run.Ends G.faults (Run.foldWhile (p.run G.rules G.verbose (n + D))
          (fun vs v => .ok (v :: vs)) [] c) := by
        refine Run.Ends.foldWhile (P := G.Allows b k) (fun c hc => ih h.1 hc)
          (fun c v d hc hv => ?_) hk
        obtain ⟨s, hs, hd, hk⟩ := hc.took ⟨_, hv⟩
        have hne : s ≠ [] := by rintro rfl; exact h.2 _ v hs
        exact ⟨hk.left, hd.unreadCount_lt hne, fun _ _ he => nomatch he⟩
      exact hrounds.tryMap (f := fun vs => .ok vs.reverse) fun _ _ _ _ he => nomatch he
    | chainLeft operand operator =>
      obtain ⟨hoperand, hoperator, hne, hf⟩ := h
      refine (ih hoperand hk).andThen fun v d hv => ?_
      obtain ⟨s, -, -, hk⟩ := hk.took ⟨_, hv⟩
      have hround (c : Cursor) (hc : G.Allows b k c) :
          (chainRound G.rules G.verbose operand operator (n + D) c).Ends G.faults := by
        refine (ih hoperator hc).andThen fun f d hv => ?_
        obtain ⟨s, -, -, hk⟩ := hc.took ⟨_, hv⟩
        exact (ih hoperand hk.left).tryMap (f := fun w => .ok (f, w)) fun _ _ _ _ he => nomatch he
      refine Run.Ends.foldWhile hround (fun c v e hc hv => ?_) hk.left
      obtain ⟨d, hop, hw⟩ := (decides_chainRound operand operator (n + D) c).of_success v e hv
      obtain ⟨s, hs, hd, hk⟩ := hc.took hop
      obtain ⟨u, -, he, hk⟩ := hk.left.took hw
      have hsne : s ++ u ≠ [] := by
        intro hnil
        rw [(List.append_eq_nil_iff.1 hnil).1] at hs
        exact hne _ _ hs
      exact ⟨hk.left, (hd.trans he).unreadCount_lt hsne, fun acc x => hf _ _ _ _ _ _ hs⟩
    | trace name shown p =>
      have hp := ih h.1 hk
      simp only [run]
      split
      · refine hp.traced fun v d e hv he => ?_
        obtain ⟨s, hs, -⟩ := hk.took ⟨_, hv⟩
        exact h.2 _ v s e hs he
      · exact hp
    | delay note p => exact ih (p := p) h hk
    | ref r =>
      have href : b = true := h
      subst href
      have hr := hrules r c hk
      show ((G.rules _ r).run G.rules G.verbose (n + D) c).Ends G.faults
      rw [run_of_le (Nat.le_add_left D n) hr.not_tooDeep]
      exact hr

/-- With depth for the references that can still follow, a guarded parser ends. -/
theorem ends (hrules : ∀ {α : Type} (r : ρ α), Guarded G N false (G.rules _ r))
    (h : Guarded G n b p) (hk : G.Allows b k c) :
    (p.run G.rules G.verbose (n + N * k) c).Ends G.faults := by
  -- A reference takes one of the opening characters that `k` counts, and depth `N`.
  induction k generalizing n b α c with
  | zero => exact h.ends_of_rules (fun r c hc => absurd hc (Nat.not_lt_zero _)) hk
  | succ k ih =>
    refine h.ends_of_rules (fun r c hc => ?_) hk
    rw [Nat.mul_succ, Nat.add_comm]
    exact ih (hrules r) (Nat.le_of_lt_succ hc)

/-- In a parser without references only its own calls nest. -/
theorem reaches_run (h : Guarded (.closed rules verbose) n false p) (hm : n ≤ m) (c : Cursor) :
    p.Reaches rules verbose c (p.run rules verbose m c) := by
  have hnone : (Guard.closed rules verbose).Allows false 0 c :=
    Nat.le_of_eq (List.countP_eq_zero.2 fun _ _ => Bool.false_ne_true)
  have hends : (p.run rules verbose n c).Ends fun _ => True :=
    h.ends_of_rules (D := 0) (fun r d hd => absurd hd (Nat.not_lt_zero _)) hnone
  rw [← run_of_le hm hends.not_tooDeep] at hends
  exact ⟨hends.not_tooDeep, m, rfl⟩

theorem result_of_answers (h : Guarded (.closed rules verbose) n false p) (hm : n ≤ m)
    {a : Answer α} (ha : p.Answers rules verbose c.unread a) :
    (p.run rules verbose m c).result = a.outcome c :=
  ha.result_of_not_tooDeep rfl (h.reaches_run hm c).1

/-! ### What guarded parsers run -/

variable {q : Task ρ}

/-- A call leads on in the text, and only an opening character on the way allows a reference. -/
theorem calls (hrules : ∀ {α : Type} (r : ρ α), Guarded G N false (G.rules _ r))
    (h : Guarded G n b p) (hq : p.Calls G.rules G.verbose c q) :
    ∃ s m b', c.Leads s q.cursor ∧ Guarded G m b' q.parser ∧
      (b' = true → (b || s.any G.opens) = true) := by
  cases n with
  | zero => exact h.elim
  | succ n =>
    have hstay {β : Type} {p : Parser ρ β} {s : Text} {d : Cursor} (hs : c.Leads s d)
        (hp : Guarded G n b p) (hq : q = ⟨p, d⟩) :
        ∃ s m b', c.Leads s q.cursor ∧ Guarded G m b' q.parser ∧
          (b' = true → (b || s.any G.opens) = true) := by
      subst hq
      exact ⟨s, n, b, hs, hp, fun hb => by simp [hb]⟩
    have hstart {β : Type} {p : Parser ρ β} := hstay (p := p) (.refl c)
    cases p with
    | anyChar | eof | pure | fail | throw => exact hq.elim
    | bind p k =>
      rcases hq with hq | ⟨v, d, hv, rfl⟩
      · exact hstart h.1 hq
      · obtain ⟨s, hs, hd⟩ := hv.took
        exact ⟨s, n, _, hd, h.2 _ v s hs, id⟩
    | tryMap f p => exact hstart h.1 hq
    | filter accepts shown description p => exact hstart h.1 hq
    | label description p => exact hstart (p := p) h hq
    | delay note p => exact hstart (p := p) h hq
    | trace name shown p => exact hstart h.1 hq
    | orElse p p' =>
      rcases hq with hq | ⟨-, hq⟩
      · exact hstart h.1 hq
      · exact hstart h.2 hq
    | anyOf j ps =>
      have hps : ∀ i, Guarded G n b (ps i) := h
      obtain ⟨i, -, hq⟩ := hq
      exact hstart (hps i) hq
    | many p =>
      obtain ⟨vs, d, hrounds, hq⟩ := hq
      obtain ⟨s, hs⟩ := hrounds.leads fun c v d hv => hv.leads
      exact hstay hs h.1 hq
    | chainLeft operand operator =>
      obtain ⟨hoperand, hoperator, -⟩ := h
      rcases hq with hq | ⟨v, d, w, e, hv, hrounds, hq⟩
      · exact hstart hoperand hq
      obtain ⟨s, hs⟩ := hv.leads
      obtain ⟨u, hu⟩ := hrounds.leads fun c v d hv => hv.leads
      rcases hq with hq | ⟨f, x, hf, hq⟩
      · exact hstay (hs.trans hu) hoperator hq
      · obtain ⟨r, hr⟩ := hf.leads
        exact hstay ((hs.trans hu).trans hr) hoperand hq
    | ref r =>
      obtain rfl := hq
      exact ⟨[], N, false, .refl c, hrules r, nofun⟩

/-- So do calls that follow on one another. -/
theorem runs (hrules : ∀ {α : Type} (r : ρ α), Guarded G N false (G.rules _ r)) {T : Task ρ}
    (h : Guarded G n b T.parser) (hq : T.Runs G.rules G.verbose q) :
    ∃ s m b', T.cursor.Leads s q.cursor ∧ Guarded G m b' q.parser ∧
      (b' = true → (b || s.any G.opens) = true) := by
  induction hq with
  | refl => exact ⟨[], n, b, .refl _, h, fun hb => by simp [hb]⟩
  | tail _ hcall ih =>
    obtain ⟨s, m, b', hs, hm, hb⟩ := ih
    obtain ⟨u, k, b'', hu, hk, hb'⟩ := hm.calls hrules hcall
    refine ⟨s ++ u, k, b'', hs.trans hu, hk, fun hb'' => ?_⟩
    rw [List.any_append, ← Bool.or_assoc]
    rcases Bool.or_eq_true_iff.1 (hb' hb'') with hb' | hany
    · simp [hb hb']
    · simp [hany]

/-- Between two entries an opening character is taken. -/
theorem entry (hrules : ∀ {α : Type} (r : ρ α), Guarded G N false (G.rules _ r)) {T : Task ρ}
    (h : Guarded G n false T.parser) {r : ρ β} (hr : T.Runs G.rules G.verbose ⟨.ref r, d⟩) :
    T.cursor.offset < d.offset ∧ d.unread.countP G.opens < T.cursor.unread.countP G.opens := by
  obtain ⟨s, m, b, hs, hm, hb⟩ := h.runs hrules hr
  cases m with
  | zero => exact hm.elim
  | succ m =>
    have hany : s.any G.opens = true := hb hm
    obtain ⟨x, hx, hopen⟩ := List.any_eq_true.1 hany
    have hlen : 0 < s.length := List.length_pos_of_mem hx
    have hcount : 0 < s.countP G.opens := List.countP_pos_iff.2 ⟨x, hx, hopen⟩
    have hoffset : d.offset = _ := hs.offset
    have hopens : _ = _ + d.unread.countP G.opens := hs.countP_eq G.opens
    constructor <;> omega

theorem entries_le (hrules : ∀ {α : Type} (r : ρ α), Guarded G N false (G.rules _ r)) {T : Task ρ}
    (h : Guarded G n false T.parser) (hT : T.Entries G.rules G.verbose k) :
    k ≤ 1 + T.cursor.unread.countP G.opens := by
  induction hT generalizing n with
  | one T => exact Nat.le_add_right 1 _
  | inner hr _ ih =>
    exact Nat.le_trans (Nat.succ_le_succ (ih (hrules _)))
      (Nat.add_le_add_left (h.entry hrules hr).2 1)

end Guarded
end Parser
end Descent
