import Descent.Parser.Literal
import Descent.Parser.Reading
import Descent.Proofs.Likeness

/-!
# Wording does not steer a parse

`Parser.Reworded p p'`: the parsers are the same but for labels, which either may have anywhere,
and for the words of descriptions and failures. Their runs end alike, with failures at the same
positions, and ask for the same delayed parsers (`Parser.wording_irrelevant`): a label sees whether
a failure stands at the start, but neither it nor `filter` moves one.
-/

namespace Descent

namespace Parser

variable {ρ : Type → Type}

inductive Reworded : {α : Type} → Parser ρ α → Parser ρ α → Prop where
  | anyChar : Reworded anyChar anyChar
  | eof : Reworded eof eof
  | pure {α : Type} (v : α) : Reworded (.pure v) (.pure v)
  | fail {α : Type} (message message' : Text) :
      Reworded (fail message : Parser ρ α) (fail message')
  | throw {α : Type} (fault : Fault) : Reworded (throw fault : Parser ρ α) (throw fault)
  | bind {α β : Type} {p p' : Parser ρ α} {k k' : α → Parser ρ β} (hp : Reworded p p')
      (hk : ∀ v, Reworded (k v) (k' v)) : Reworded (bind p k) (bind p' k')
  | tryMap {α β : Type} {p p' : Parser ρ α} (f : α → Except Fault β) (hp : Reworded p p') :
      Reworded (tryMap f p) (tryMap f p')
  | filter {α : Type} {p p' : Parser ρ α} (accepts : α → Except Fault Bool)
      (shown : α → Except Fault Text) (description description' : Text) (hp : Reworded p p') :
      Reworded (filter accepts shown description p) (filter accepts shown description' p')
  | orElse {α : Type} {p p' q q' : Parser ρ α} (hp : Reworded p p') (hq : Reworded q q') :
      Reworded (orElse p q) (orElse p' q')
  | anyOf {α : Type} {n : Nat} {ps ps' : Fin n → Parser ρ α} (h : ∀ i, Reworded (ps i) (ps' i)) :
      Reworded (anyOf n ps) (anyOf n ps')
  | many {α : Type} {p p' : Parser ρ α} (hp : Reworded p p') : Reworded (many p) (many p')
  | chainLeft {α : Type} {operand operand' : Parser ρ α}
      {operator operator' : Parser ρ (α → α → Except Fault α)} (hp : Reworded operand operand')
      (hop : Reworded operator operator') :
      Reworded (chainLeft operand operator) (chainLeft operand' operator')
  | trace {α : Type} {p p' : Parser ρ α} (name : Text) (shown : α → Except Fault Text)
      (hp : Reworded p p') : Reworded (trace name shown p) (trace name shown p')
  | delay {α : Type} {p p' : Parser ρ α} (note : Text) (hp : Reworded p p') :
      Reworded (delay note p) (delay note p')
  | ref {α : Type} (r : ρ α) : Reworded (ref r) (ref r)
  | label {α : Type} {p p' : Parser ρ α} (description : Text) (hp : Reworded p p') :
      Reworded (label description p) p'
  | label' {α : Type} {p p' : Parser ρ α} (description : Text) (hp : Reworded p p') :
      Reworded p (label description p')

theorem Reworded.symm {α : Type} {p p' : Parser ρ α} (h : Reworded p p') : Reworded p' p := by
  induction h with
  | anyChar => exact .anyChar
  | eof => exact .eof
  | pure v => exact .pure v
  | fail message message' => exact .fail message' message
  | throw fault => exact .throw fault
  | bind _ _ hp hk => exact .bind hp hk
  | tryMap f _ hp => exact .tryMap f hp
  | filter accepts shown description description' _ hp =>
    exact .filter accepts shown description' description hp
  | orElse _ _ hp hq => exact .orElse hp hq
  | anyOf _ hps => exact .anyOf hps
  | many _ hp => exact .many hp
  | chainLeft _ _ hp hop => exact .chainLeft hp hop
  | trace name shown _ hp => exact .trace name shown hp
  | delay note _ hp => exact .delay note hp
  | ref r => exact .ref r
  | label description _ hp => exact .label' description hp
  | label' description _ hp => exact .label description hp

end Parser

/-- Failures at the same position, and the same notes. -/
def Likeness.butWording : Likeness where
  failures f f' := f.position = f'.position
  events es es' := es.filterMap Event.note? = es'.filterMap Event.note?
  nil := rfl
  append h h' := by rw [List.filterMap_append, List.filterMap_append, h, h']

namespace Outcome.Alike

variable {α : Type} {o o' : Outcome α} {start : Position}

theorem filter (accepts : α → Except Fault Bool) (shown : α → Except Fault Text)
    (description description' : Text) (h : o.Alike .butWording o') :
    (o.filter accepts shown description start).Alike .butWording
      (o'.filter accepts shown description' start) := by
  cases h with
  | success v c =>
    simp only [Outcome.filter]
    rcases accepts v with e | _ | _
    · exact .abort _
    · cases shown v with
      | ok t => exact .failure rfl
      | error e => exact .abort _
    · exact .success v c
  | failure hf => exact .failure hf
  | abort a => exact .abort a

theorem label (description : Text) (h : o.Alike .butWording o') :
    (o.label description start).Alike .butWording o' := by
  cases h with
  | @failure f f' hf =>
    refine .failure ?_
    by_cases hs : f.position = start
    · simp only [hs, if_true]; exact hs.symm.trans hf
    · simp only [hs, if_false]; exact hf
  | success v c => exact .success v c
  | abort a => exact .abort a

theorem symm (h : o.Alike .butWording o') : o'.Alike .butWording o := by
  cases h with
  | failure hf => exact .failure hf.symm
  | success v c => exact .success v c
  | abort a => exact .abort a

end Outcome.Alike

theorem Run.Alike.traced {α : Type} {r r' : Run α} {start : Position} (name : Text)
    (shown : α → Except Fault Text) (h : Run.Alike .butWording r r') :
    Run.Alike .butWording (r.traced name shown start) (r'.traced name shown start) := by
  rcases r with ⟨o, es⟩
  rcases r' with ⟨o', es'⟩
  rcases h with ⟨ho, hes⟩
  have hend : Run.Alike .butWording (tracedEnd name shown o) (tracedEnd name shown o') := by
    cases ho with
    | success v d =>
      simp only [tracedEnd]
      cases shown v with
      | ok t => exact ⟨.success v d, rfl⟩
      | error e => exact ⟨.abort _, rfl⟩
    | failure hf => exact ⟨.failure hf, rfl⟩
    | abort a => exact ⟨.abort a, rfl⟩
  have htrying : Likeness.butWording.events [.trying name start] [.trying name start] := rfl
  exact hend.after (Likeness.butWording.append htrying hes)

namespace Run.Reproduced

variable {α : Type} {r : Run α} {f : Nat → Run α}

theorem label (description : Text) (start : Position) (h : Reproduced .butWording r f) :
    Reproduced .butWording (Recorded.map (·.label description start) r) f := by
  have hsame : Reproduced .butWording (Recorded.map (·.label description start) r) fun n =>
      Recorded.map id (f n) := h.map (fun _ _ ho => ho.label description) rfl
  exact hsame

theorem label' (description : Text) (start : Position) (h : Reproduced .butWording r f) :
    Reproduced .butWording r fun n => Recorded.map (·.label description start) (f n) := by
  have hsame : Reproduced .butWording (Recorded.map id r) fun n =>
      Recorded.map (·.label description start) (f n) :=
    h.map (fun _ _ ho => (ho.symm.label description).symm) rfl
  exact hsame

end Run.Reproduced

namespace Parser

variable {ρ : Type → Type} {rules rules' : Rules ρ} {verbose : Bool} {α : Type}
  {p p' : Parser ρ α}

theorem reproduced_reworded (hrules : ∀ {α : Type} (r : ρ α), Reworded (rules _ r) (rules' _ r))
    {n : Nat} {c : Cursor} (h : Reworded p p') :
    Run.Reproduced .butWording (p.run rules verbose n c) fun m => p'.run rules' verbose m c := by
  induction n generalizing α c with
  | zero => exact fun hr => absurd rfl hr
  | succ n ih =>
    -- Labels of `p'` cost it depth but not `p`: they are taken off at the same depth of `p`.
    induction h generalizing c with
    | anyChar | eof | pure v | throw fault =>
      exact .of_succ (.of_alike fun _ => .quiet (fun _ => rfl) _)
    | fail message message' => exact .of_succ (.of_alike fun _ => ⟨.failure rfl, rfl⟩)
    | bind hp hk => exact .of_succ ((ih hp).andThen fun v d _ => ih (hk v))
    | tryMap f hp => exact .of_succ ((ih hp).map (fun _ _ ho => ho.tryMap f) rfl)
    | filter accepts shown description description' hp =>
      exact .of_succ ((ih hp).map
        (fun _ _ ho => ho.filter accepts shown description description') rfl)
    | orElse hp hq => exact .of_succ ((ih hp).orElse fun _ => ih hq)
    | anyOf hps => exact .of_succ (.firstOf rfl fun i _ => ih (hps i))
    | many hp =>
      exact .of_succ ((Run.Reproduced.foldWhile fun _ _ _ => ih hp).map
        (fun _ _ ho => ho.tryMap _) rfl)
    | chainLeft hp hop =>
      refine .of_succ ((ih hp).andThen fun v d _ => Run.Reproduced.foldWhile fun w e _ => ?_)
      exact (ih hop).andThen fun f x _ => (ih hp).map (fun _ _ ho => ho.tryMap _) rfl
    | trace name shown hp =>
      refine .of_succ ?_
      cases verbose with
      | false => exact ih hp
      | true =>
        intro hr
        obtain ⟨m, hm⟩ := ih hp fun hdeep =>
          hr ((Run.tooDeep_traced_iff name shown c.position).2 hdeep)
        exact ⟨m, fun k hk => (hm k hk).traced name shown⟩
    | delay note hp => exact .of_succ ((ih hp).after rfl)
    | ref r => exact .of_succ (ih (hrules r))
    | label description hp => exact (ih hp).label description c.position
    | label' description hp ihp => exact .of_succ (ihp.label' description c.position)

theorem reaches_reworded (hrules : ∀ {α : Type} (r : ρ α), Reworded (rules _ r) (rules' _ r))
    {c : Cursor} {r : Run α} (h : Reworded p p') (hr : p.Reaches rules verbose c r) :
    ∃ r', p'.Reaches rules' verbose c r' ∧ Run.Alike .butWording r r' := by
  obtain ⟨hdeep, n, rfl⟩ := hr
  obtain ⟨m, hm⟩ := reproduced_reworded hrules h hdeep
  have halike := hm m (Nat.le_refl m)
  refine ⟨_, ⟨fun hdeep' => hdeep ?_, m, rfl⟩, halike⟩
  have hres := halike.result
  rw [show (p'.run rules' verbose m c).result = _ from hdeep'] at hres
  revert hres
  rw [Run.TooDeep]
  generalize (p.run rules verbose n c).result = o
  rintro (_ | _ | _)
  rfl

/-- Of two parsers that are the same but for wording either both come to an end or neither, and
they end alike: with the same value at the same place, with failures at the same position, or with
the same abort. The delayed parsers that they ask for are the same, in the same order. -/
theorem wording_irrelevant (rules rules' : Rules ρ) (verbose : Bool)
    (hrules : ∀ {α : Type} (r : ρ α), Reworded (rules _ r) (rules' _ r)) (p p' : Parser ρ α)
    (h : Reworded p p') (c : Cursor) :
    ((∃ r, p.Reaches rules verbose c r) ↔ ∃ r', p'.Reaches rules' verbose c r') ∧
    ∀ r r', p.Reaches rules verbose c r → p'.Reaches rules' verbose c r' →
      r.notes = r'.notes ∧
      match r.result, r'.result with
      | .success v d, .success v' d' => v = v' ∧ d = d'
      | .failure f, .failure f' => f.position = f'.position
      | .abort a, .abort a' => a = a'
      | _, _ => False := by
  refine ⟨⟨fun ⟨r, hr⟩ => ?_, fun ⟨r', hr'⟩ => ?_⟩, fun r r' hr hr' => ?_⟩
  · obtain ⟨r', hr', -⟩ := reaches_reworded hrules h hr
    exact ⟨r', hr'⟩
  · obtain ⟨r, hr, -⟩ := reaches_reworded (fun r => (hrules r).symm) h.symm hr'
    exact ⟨r, hr⟩
  · obtain ⟨r'', hr'', halike⟩ := reaches_reworded hrules h hr
    obtain rfl := hr'.unique hr''
    refine ⟨halike.events, ?_⟩
    rcases r with ⟨o, es⟩
    rcases r' with ⟨o', es'⟩
    cases halike.result with
    | success v d => exact ⟨rfl, rfl⟩
    | failure hf => exact hf
    | abort a => rfl

/-- One parser has a label on the first character and the other on what is to follow it, in words
of their own: both fail behind the first character. -/
theorem wording_irrelevant_labels :
    let rules : Rules fun _ => Empty := fun _ r => r.elim
    let p : Parser (fun _ => Empty) CodePoint := ((delay "first" (char '1')).label "one").bind
      fun _ => (char 'b').orElse (fail "no b")
    let p' : Parser (fun _ => Empty) CodePoint :=
      (delay "first" (satisfy (· = '1') "the digit 1")).bind
        fun _ => ((satisfy (· = 'b') "the letter b").orElse (fail "nothing")).label "b"
    let c : Cursor := .start "1a" []
    (∀ {α : Type} (r : Empty), Reworded (rules α r) (rules α r)) ∧ Reworded p p' ∧
      p.Reaches rules true c (p.parse rules true c) ∧
      p'.Reaches rules true c (p'.parse rules true c) ∧
      (p.parse rules true c).notes = (p'.parse rules true c).notes ∧
      ∃ f f', (p.parse rules true c).result = .failure f ∧
        (p'.parse rules true c).result = .failure f' ∧ f.position = f'.position ∧
        f.message = "no b" ∧ f'.message = "Expected b" := by
  intro rules p p' c
  have hrules : ∀ {α : Type} (r : Empty), Reworded (rules α r) (rules α r) := fun r => r.elim
  have hsame : Reworded p p' := by
    refine .bind (.label _ (.delay _ (.filter _ _ _ _ .anyChar))) fun _ => .label' _ ?_
    exact .orElse (.filter _ _ _ _ .anyChar) (.fail _ _)
  have hreaches : p.Reaches rules true c (p.parse rules true c) :=
    ⟨by decide +kernel, nestingLimit, rfl⟩
  have hreaches' : p'.Reaches rules true c (p'.parse rules true c) :=
    ⟨by decide +kernel, nestingLimit, rfl⟩
  obtain ⟨-, hends⟩ := wording_irrelevant rules rules true hrules p p' hsame c
  obtain ⟨hnotes, hres⟩ := hends _ _ hreaches hreaches'
  exact ⟨hrules, hsame, hreaches, hreaches', hnotes, _, _, rfl, rfl, hres, rfl, rfl⟩

end Parser
end Descent
