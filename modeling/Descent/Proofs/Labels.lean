import Descent.Proofs.Outcomes
import Descent.Proofs.Translation

/-!
# Labels

A label words a failure in which nothing was read, and leaves every other outcome as it is
(`Parser.label_replaces`). It sees only the position of the failure; but each failure stands behind
one prefix of what is left to read (`Parser.Reaches.failure_behind`), and behind no prefix but the
empty one the position is that of the start, whatever line feeds do to the column.
-/

namespace Descent

theorem Outcome.label_label {α : Type} (o : Outcome α) (inner outer : Text) (start : Position) :
    (o.label inner start).label outer start = o.label outer start := by
  cases o with
  | success | abort => rfl
  | failure f =>
    simp only [label]
    split <;> simp [*]

namespace Parser

variable {ρ : Type → Type} {rules : Rules ρ} {verbose : Bool} {α : Type} {p : Parser ρ α}
  {c d : Cursor} {description : Text} {r : Run α} {f : Failure} {es : List Event} {v : α}

theorem label_reaches_iff : (p.label description).Reaches rules verbose c r ↔
    ∃ r', p.Reaches rules verbose c r' ∧
      Recorded.map (·.label description c.position) r' = r :=
  reaches_map_iff (fun _ => Outcome.label_eq_tooDeep_iff description c.position) fun _ => rfl

theorem filter_reaches_iff {accepts : α → Except Fault Bool} {shown : α → Except Fault Text} :
    (p.filter accepts shown description).Reaches rules verbose c r ↔
      ∃ r', p.Reaches rules verbose c r' ∧
        Recorded.map (·.filter accepts shown description c.position) r' = r :=
  reaches_map_iff (fun _ => Outcome.filter_eq_tooDeep_iff ..) fun _ => rfl

/-- How far into the text a failure stands, its position tells. -/
theorem Reaches.failure_behind (h : p.Reaches rules verbose c ⟨.failure f, es⟩) :
    ∃! s, s <+: c.unread ∧ f.position = c.position.updateAll s := by
  obtain ⟨-, n, hn⟩ := h
  obtain ⟨a, ns, ha⟩ := p.uniform_run rules verbose n c.unread
  have hresult := ha.result c rfl
  rw [hn] at hresult
  cases a with
  | took | stopped => cases hresult
  | missed s message =>
    cases hresult
    exact ⟨s, ⟨ha.within, rfl⟩, fun s' hs' => Position.updateAll_inj hs'.1 ha.within hs'.2.symm⟩

theorem label_reaches_failure_iff :
    (p.label description).Reaches rules verbose c ⟨.failure f, es⟩ ↔
      (f = ⟨c.position, "Expected " ++ description⟩ ∧
        ∃ message, p.Reaches rules verbose c ⟨.failure ⟨c.position, message⟩, es⟩) ∨
      (∃ s ≠ [], s <+: c.unread ∧ f.position = c.position.updateAll s) ∧
        p.Reaches rules verbose c ⟨.failure f, es⟩ := by
  rw [label_reaches_iff]
  constructor
  · rintro ⟨⟨o, es'⟩, hp, heq⟩
    cases o with
    | success | abort => cases heq
    | failure g =>
      by_cases hg : g.position = c.position
      · simp only [Recorded.map, Outcome.label, if_pos hg, Recorded.mk.injEq,
          Outcome.failure.injEq] at heq
        obtain ⟨rfl, rfl⟩ := heq
        exact .inl ⟨rfl, g.message, hg ▸ hp⟩
      · simp only [Recorded.map, Outcome.label, if_neg hg, Recorded.mk.injEq,
          Outcome.failure.injEq] at heq
        obtain ⟨rfl, rfl⟩ := heq
        obtain ⟨s, ⟨hs, hpos⟩, -⟩ := hp.failure_behind
        refine .inr ⟨⟨s, ?_, hs, hpos⟩, hp⟩
        rintro rfl
        exact hg hpos
  · rintro (⟨rfl, message, hp⟩ | ⟨⟨s, hs, -, hpos⟩, hp⟩)
    · exact ⟨_, hp, by simp [Recorded.map, Outcome.label]⟩
    · have hne : f.position ≠ c.position :=
        fun h => hs (Position.updateAll_eq_self_iff.1 (hpos.symm.trans h))
      exact ⟨_, hp, by simp [Recorded.map, Outcome.label, hne]⟩

theorem label_reaches_iff_of_ne_failure {o : Outcome α} (ho : ∀ f, o ≠ .failure f) :
    (p.label description).Reaches rules verbose c ⟨o, es⟩ ↔
      p.Reaches rules verbose c ⟨o, es⟩ := by
  rw [label_reaches_iff]
  constructor
  · rintro ⟨⟨o', es'⟩, hp, heq⟩
    cases o' with
    | success | abort => cases heq; exact hp
    | failure g => cases heq; exact absurd rfl (ho _)
  · intro hp
    refine ⟨_, hp, ?_⟩
    cases o with
    | success | abort => rfl
    | failure f => exact absurd rfl (ho f)

/-- A value that is not accepted is a failure in which nothing was read. -/
theorem Reaches.filter_rejected {accepts : α → Except Fault Bool} {shown : α → Except Fault Text}
    {t : Text} (hv : p.Reaches rules verbose c ⟨.success v d, es⟩) (ha : accepts v = .ok false)
    (ht : shown v = .ok t) : (p.filter accepts shown description).Reaches rules verbose c
      ⟨.failure ⟨c.position, "Expected " ++ description ++ ", but got " ++ t⟩, es⟩ :=
  filter_reaches_iff.2 ⟨_, hv, by simp only [Recorded.map, Outcome.filter, ha, ht]⟩

theorem Agree.label_label (inner outer : Text) :
    Agree rules verbose ((p.label inner).label outer) (p.label outer) := by
  intro c r
  simp only [label_reaches_iff]
  constructor
  · rintro ⟨-, ⟨⟨o, es⟩, hp, rfl⟩, rfl⟩
    exact ⟨_, hp, by simp only [Recorded.map, Outcome.label_label]⟩
  · rintro ⟨⟨o, es⟩, hp, rfl⟩
    exact ⟨_, ⟨_, hp, rfl⟩, by simp only [Recorded.map, Outcome.label_label]⟩

/-- Successes and aborts are those of `p`. Each failure of `p` stands behind one prefix of the
unread text. If the prefix is empty, the failure has the label for a message, and otherwise it is
that of `p`. A rejected value is of the first kind, however much was read for it. So of two labels
the outer one counts. -/
theorem label_replaces (rules : Rules ρ) (verbose : Bool) (p : Parser ρ α) (description : Text) :
    (∀ c o es, (∀ f, o ≠ .failure f) → ((p.label description).Reaches rules verbose c ⟨o, es⟩ ↔
      p.Reaches rules verbose c ⟨o, es⟩)) ∧
    (∀ c f es, p.Reaches rules verbose c ⟨.failure f, es⟩ →
      ∃! s, s <+: c.unread ∧ f.position = c.position.updateAll s) ∧
    (∀ c f es, (p.label description).Reaches rules verbose c ⟨.failure f, es⟩ ↔
      (f = ⟨c.position, "Expected " ++ description⟩ ∧
        ∃ message, p.Reaches rules verbose c ⟨.failure ⟨c.position, message⟩, es⟩) ∨
      (∃ s ≠ [], s <+: c.unread ∧ f.position = c.position.updateAll s) ∧
        p.Reaches rules verbose c ⟨.failure f, es⟩) ∧
    (∀ accepts shown expected c v d t es, p.Reaches rules verbose c ⟨.success v d, es⟩ →
      accepts v = .ok false → shown v = .ok t →
      ((p.filter accepts shown expected).label description).Reaches rules verbose c
        ⟨.failure ⟨c.position, "Expected " ++ description⟩, es⟩) ∧
    ∀ inner, Agree rules verbose ((p.label inner).label description) (p.label description) := by
  refine ⟨fun c o es ho => label_reaches_iff_of_ne_failure ho, fun c f es hf => hf.failure_behind,
    fun c f es => label_reaches_failure_iff, ?_, fun inner => .label_label inner description⟩
  intro accepts shown expected c v d t es hv ha ht
  exact label_reaches_failure_iff.2 (.inl ⟨rfl, _, hv.filter_rejected ha ht⟩)

/-- A failure in the first column of the next line, which stays as it is, and a word of three
letters that is rejected. -/
theorem label_replaces_line_word :
    let rules : Rules fun _ => Empty := fun _ r => r.elim
    let line : Parser (fun _ => Empty) CodePoint := (char '\n').keepRight (char 'x')
    let word : Parser (fun _ => Empty) Text := letter.some
    let short := word.filter (fun w => .ok (w.length ≤ 2)) .ok "two letters"
    let c : Cursor := .start "\ny" []
    let f : Failure := ⟨⟨2, 1, []⟩, "Expected x, but got y"⟩
    let c' : Cursor := .start "abc" []
    let d : Cursor := ⟨c'.text, 3, ⟨1, 4, []⟩⟩
    (line.label "a line").Reaches rules true c ⟨.failure f, []⟩ ∧
      (∃! s, s <+: c.unread ∧ f.position = c.position.updateAll s) ∧
      (word.label "a word").Reaches rules true c' ⟨.success "abc" d, []⟩ ∧
      (short.label "a word").Reaches rules true c' ⟨.failure ⟨⟨1, 1, []⟩, "Expected a word"⟩, []⟩ ∧
      ((short.label "a name").label "a word").Reaches rules true c'
        ⟨.failure ⟨⟨1, 1, []⟩, "Expected a word"⟩, []⟩ := by
  intro rules line word short c f c' d
  obtain ⟨-, hbehind, hlabel, -⟩ := label_replaces rules true line "a line"
  obtain ⟨hsame, -, -, hrejected, -⟩ := label_replaces rules true word "a word"
  obtain ⟨-, -, -, -, hinner⟩ := label_replaces rules true short "a word"
  have hline : line.Reaches rules true c ⟨.failure f, []⟩ :=
    reaches_of_run (n := 10) (by simp) (by decide +kernel) (by decide +kernel)
  have hword : word.Reaches rules true c' ⟨.success "abc" d, []⟩ :=
    reaches_of_run (n := 10) (by simp) (by decide +kernel) (by decide +kernel)
  have hshort := hrejected (fun w => .ok (w.length ≤ 2)) .ok "two letters" c' "abc" d "abc" []
    hword rfl rfl
  exact ⟨(hlabel c f []).2 (.inr ⟨⟨"\n", by decide, ⟨"y", rfl⟩, rfl⟩, hline⟩), hbehind c f [] hline,
    (hsame c' _ [] (by simp)).2 hword, hshort, (hinner "a name" c' _).2 hshort⟩

end Parser
end Descent
