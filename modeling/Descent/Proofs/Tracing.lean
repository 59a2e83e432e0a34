import Descent.Parser.Reading
import Descent.Proofs.Likeness
import Descent.Proofs.Rounds

/-!
# Traces change nothing but the log

`Parser.untraced` takes the traces out of a parser, out of what its continuations build and out of
the rules. What remains has the run of the parser without the events of traces
(`Parser.tracing_transparent`). A trace that is recorded shows the value of the attempt, so the
values that a run comes across must be such that they can be shown (`Parser.ShowsTraced`).
-/

namespace Descent

namespace Event

/-- The events that a trace leaves. -/
def isTrace : Event → Bool
  | trying .. | matched .. | failed .. => true
  | _ => false

end Event

namespace Recorded

variable {α β : Type}

/-- The record without the events of traces. -/
def untraced (r : Recorded β) : Recorded β := ⟨r.result, r.events.filter (!·.isTrace)⟩

/-- The log lines of a record. -/
def log (r : Recorded β) : List Text := r.events.filterMap Event.line?

theorem notes_untraced (r : Recorded β) : r.untraced.notes = r.notes := by
  simp only [notes, untraced, List.filterMap_filter]
  refine congrFun (congrArg _ (funext fun e => ?_)) _
  cases e <;> rfl

end Recorded

namespace Parser

variable {ρ : Type → Type} {α : Type}

def untraced : {α : Type} → Parser ρ α → Parser ρ α
  | _, anyChar => anyChar
  | _, eof => eof
  | _, .pure v => .pure v
  | _, fail message => fail message
  | _, throw fault => throw fault
  | _, bind p k => bind p.untraced fun v => (k v).untraced
  | _, tryMap f p => tryMap f p.untraced
  | _, filter accepts shown description p => filter accepts shown description p.untraced
  | _, label description p => label description p.untraced
  | _, orElse p q => orElse p.untraced q.untraced
  | _, anyOf n ps => anyOf n fun i => (ps i).untraced
  | _, many p => many p.untraced
  | _, chainLeft operand operator => chainLeft operand.untraced operator.untraced
  | _, trace _ _ p => p.untraced
  | _, delay note p => delay note p.untraced
  | _, ref r => ref r

end Parser

def Rules.untraced {ρ : Type → Type} (rules : Rules ρ) : Rules ρ := fun _ r => (rules _ r).untraced

/-- If the task is a traced parser, then what the parser gives can be shown. -/
def Task.Shows {ρ : Type → Type} (rules : Rules ρ) (verbose : Bool) (T : Task ρ) : Prop :=
  ∀ name shown p, T.parser = .trace name shown p →
    ∀ v d, p.Succeeds rules verbose T.cursor v d → ∃ t, shown v = .ok t

/-- Equal failures, and equal events but for those of traces, which alone are logged. -/
def Likeness.butTraces (verbose : Bool) : Likeness where
  failures := Eq
  events es es' := es' = es.filter (!·.isTrace) ∧ (verbose = false → es.filterMap Event.line? = [])
  nil := ⟨rfl, fun _ => rfl⟩
  append h h' := by
    refine ⟨by rw [h.1, h'.1, List.filter_append], fun hv => ?_⟩
    rw [List.filterMap_append, h.2 hv, h'.2 hv, List.append_nil]

namespace Run

variable {α : Type} {verbose : Bool} {r r' : Run α} {f : Nat → Run α}

theorem alike_butTraces_iff :
    Alike (.butTraces verbose) r r' ↔ r' = r.untraced ∧ (verbose = false → r.log = []) := by
  constructor
  · intro h
    rcases r' with ⟨o, es⟩
    rw [Recorded.untraced, h.result.eq fun _ _ => id]
    exact ⟨congrArg _ h.events.1, h.events.2⟩
  · rintro ⟨rfl, hlog⟩
    exact ⟨.refl (fun _ => rfl) r.result, rfl, hlog⟩

theorem Reproduced.traced {name : Text} {shown : α → Except Fault Text} {start : Position}
    (hs : ∀ v d, r.result = .success v d → ∃ t, shown v = .ok t)
    (h : Reproduced (.butTraces true) r f) :
    Reproduced (.butTraces true) (r.traced name shown start) f := by
  intro hr
  rw [tooDeep_traced_iff] at hr
  obtain ⟨m, hm⟩ := h hr
  refine ⟨m, fun n hn => ?_⟩
  rw [(alike_butTraces_iff.1 (hm n hn)).1, alike_butTraces_iff]
  refine ⟨?_, nofun⟩
  rcases r with ⟨o, es⟩
  cases o with
  | success v d =>
    obtain ⟨t, ht⟩ := hs v d rfl
    simp [Recorded.untraced, Run.traced, tracedEnd, ht, Recorded.after, Event.isTrace]
  | failure | abort =>
    simp [Recorded.untraced, Run.traced, tracedEnd, Recorded.after, Event.isTrace]

end Run

namespace Parser

variable {ρ : Type → Type} {rules : Rules ρ} {verbose : Bool} {α : Type} {p : Parser ρ α}
  {c : Cursor}

/-- The values of the traced parsers that a verbose run runs can be shown. -/
def ShowsTraced (rules : Rules ρ) (verbose : Bool) (p : Parser ρ α) (c : Cursor) : Prop :=
  verbose = true → ∀ q, (⟨p, c⟩ : Task ρ).Runs rules verbose q → q.Shows rules verbose

theorem ShowsTraced.call {q : Task ρ} (h : p.ShowsTraced rules verbose c)
    (hq : p.Calls rules verbose c q) : q.parser.ShowsTraced rules verbose q.cursor :=
  fun hv q' hq' => h hv q' (.head hq hq')

theorem reproduced_untraced {n m : Nat} (hnm : n ≤ m) (h : p.ShowsTraced rules verbose c) :
    Run.Reproduced (.butTraces verbose) (p.run rules verbose n c)
      fun _ => p.untraced.run rules.untraced verbose m c := by
  -- Without its traces a parser needs no more depth, so that `m` is any depth from `n` on.
  induction n generalizing m α c with
  | zero => exact fun hr => absurd rfl hr
  | succ n ih =>
    obtain ⟨m, rfl⟩ : ∃ k, m = k + 1 := ⟨m - 1, by omega⟩
    have hle : n ≤ m := by omega
    cases p with
    | anyChar | eof | pure | fail | throw => exact .of_alike fun _ => .quiet (fun _ => rfl) _
    | bind p k =>
      refine (ih hle (h.call (.inl rfl))).andThen fun v d hv => ?_
      exact ih hle (h.call (.inr ⟨v, d, ⟨n, hv⟩, rfl⟩))
    | tryMap f p => exact (ih hle (h.call rfl)).map (fun _ _ ho => ho.tryMap f) rfl
    | filter accepts shown description p =>
      refine (ih hle (h.call rfl)).map (fun o o' ho => ?_) rfl
      rw [ho.eq fun _ _ => id]
      exact .refl (fun _ => rfl) _
    | label description p =>
      refine (ih hle (h.call rfl)).map (fun o o' ho => ?_) rfl
      rw [ho.eq fun _ _ => id]
      exact .refl (fun _ => rfl) _
    | orElse p q =>
      refine (ih hle (h.call (.inl rfl))).orElse fun ⟨f, hf⟩ => ?_
      exact ih hle (h.call (.inr ⟨⟨n, f, hf⟩, rfl⟩))
    | anyOf k ps =>
      refine Run.Reproduced.firstOf rfl fun i hi => ?_
      refine ih hle (h.call ⟨i, fun j hj => ?_, rfl⟩)
      obtain ⟨f, hf⟩ := hi j hj
      exact ⟨n, f, hf⟩
    | many p =>
      refine (Run.Reproduced.foldWhile fun vs d hd => ?_).map (fun _ _ ho => ho.tryMap _) rfl
      exact ih hle (h.call ⟨vs, d, hd.mono fun c v d hv => ⟨n, hv⟩, rfl⟩)
    | chainLeft operand operator =>
      refine (ih hle (h.call (.inl rfl))).andThen fun v d hv => ?_
      refine Run.Reproduced.foldWhile fun w e he => ?_
      have hround := he.mono fun c v d => (decides_chainRound operand operator n c).of_success v d
      refine (ih hle (h.call (.inr ⟨v, d, w, e, ⟨n, hv⟩, hround, .inl rfl⟩))).andThen
        fun f x hf => ?_
      have hoperand := h.call (.inr ⟨v, d, w, e, ⟨n, hv⟩, hround, .inr ⟨f, x, ⟨n, hf⟩, rfl⟩⟩)
      exact (ih hle hoperand).map (fun _ _ ho => ho.tryMap _) rfl
    | trace name shown p =>
      have hp := ih (Nat.le_succ_of_le hle) (h.call rfl)
      cases verbose with
      | false => exact hp
      | true => exact hp.traced fun v d hv => h rfl _ .refl name shown p rfl v d ⟨n, hv⟩
    | delay note p => exact (ih hle (h.call rfl)).after ⟨rfl, fun _ => rfl⟩
    | ref r => exact ih hle (h.call rfl)

/-- All traces of a parser can show whatever they come across. -/
def CanShow : {α : Type} → Parser ρ α → Prop
  | _, anyChar | _, eof | _, .pure _ | _, fail _ | _, throw _ | _, ref _ => True
  | _, bind p k => p.CanShow ∧ ∀ v, (k v).CanShow
  | _, tryMap _ p | _, filter _ _ _ p | _, label _ p | _, many p | _, delay _ p => p.CanShow
  | _, orElse p q => p.CanShow ∧ q.CanShow
  | _, anyOf _ ps => ∀ i, (ps i).CanShow
  | _, chainLeft operand operator => operand.CanShow ∧ operator.CanShow
  | _, trace _ shown p => (∀ v, ∃ t, shown v = .ok t) ∧ p.CanShow

theorem CanShow.calls (hrules : ∀ {α : Type} (r : ρ α), (rules _ r).CanShow) {q : Task ρ}
    (h : p.CanShow) (hq : p.Calls rules verbose c q) : q.parser.CanShow := by
  cases p with
  | anyChar | eof | pure | fail | throw => exact hq.elim
  | bind p k =>
    rcases hq with rfl | ⟨v, d, -, rfl⟩
    · exact h.1
    · exact h.2 v
  | tryMap | filter | label | delay => cases hq; exact h
  | orElse p q =>
    rcases hq with rfl | ⟨-, rfl⟩
    · exact h.1
    · exact h.2
  | anyOf k ps =>
    obtain ⟨i, -, rfl⟩ := hq
    exact h i
  | many p =>
    obtain ⟨vs, d, -, rfl⟩ := hq
    exact h
  | chainLeft operand operator =>
    rcases hq with rfl | ⟨v, d, w, e, -, -, rfl | ⟨f, x, -, rfl⟩⟩
    · exact h.1
    · exact h.2
    · exact h.1
  | trace name shown p => cases hq; exact h.2
  | ref r => cases hq; exact hrules r

theorem CanShow.showsTraced (hrules : ∀ {α : Type} (r : ρ α), (rules _ r).CanShow)
    (h : p.CanShow) (verbose : Bool) (c : Cursor) : p.ShowsTraced rules verbose c := by
  intro _ q hq
  have hall : q.parser.CanShow := by
    induction hq with
    | refl => exact h
    | tail _ hcall ih => exact ih.calls hrules hcall
  intro name shown p' hp v d _
  rw [hp] at hall
  exact hall.1 v

/-! ### Ways to read a text -/

section
variable {text name : Text}

theorem parse_untraced (h : p.ShowsTraced rules verbose c)
    (hdeep : ¬ (p.parse rules verbose c).TooDeep) :
    p.untraced.parse rules.untraced verbose c = (p.parse rules verbose c).untraced ∧
      (verbose = false → (p.parse rules verbose c).log = []) := by
  obtain ⟨m, hm⟩ := reproduced_untraced (Nat.le_refl nestingLimit) h hdeep
  exact Run.alike_butTraces_iff.1 (hm m (Nat.le_refl m))

theorem attempt_untraced
    (h : p.untraced.parse rules.untraced verbose c = (p.parse rules verbose c).untraced) :
    p.untraced.attempt rules.untraced verbose c = (p.attempt rules verbose c).untraced := by
  simp only [attempt, h]
  rcases p.parse rules verbose c with ⟨o, es⟩
  cases o with
  | success | failure => rfl
  | abort a =>
    cases ha : a.isNesting with
    | false => simp [Recorded.untraced, ha]
    | true => cases verbose <;> simp [Recorded.untraced, ha, logged, Event.isTrace]

theorem runText_untraced
    (h : p.untraced.attempt rules.untraced verbose (.start text name) =
      (p.attempt rules verbose (.start text name)).untraced) :
    p.untraced.runText rules.untraced verbose text name =
      (p.runText rules verbose text name).untraced := by
  rw [runText, h]; rfl

theorem readText_untraced (consumeAll : Bool)
    (h : p.untraced.attempt rules.untraced verbose (.start text name) =
      (p.attempt rules verbose (.start text name)).untraced) :
    p.untraced.readText rules.untraced verbose text name consumeAll =
      (p.readText rules verbose text name consumeAll).untraced := by
  have hlogged (f : Failure) : (logged verbose (.rejected (subject text name) f)).filter
      (!·.isTrace) = logged verbose (.rejected (subject text name) f) := by
    cases verbose <;> rfl
  simp only [readText, h]
  rcases p.attempt rules verbose (.start text name) with ⟨o, es⟩
  cases o with
  | success v d =>
    simp only [Recorded.untraced]
    split
    · cases d.current <;> simp [List.filter_append, hlogged]
    · rfl
  | failure f => simp [Recorded.untraced, List.filter_append, hlogged]
  | abort a => rfl

/-- Nothing is logged beside the traces unless verbose. -/
theorem log_attempt (h : (p.parse rules false c).log = []) :
    (p.attempt rules false c).log = [] := by
  simp only [attempt]
  split
  · split
    · simpa [Recorded.log, logged] using h
    · exact h
  · exact h

theorem log_readText (consumeAll : Bool)
    (h : (p.attempt rules false (.start text name)).log = []) :
    (p.readText rules false text name consumeAll).log = [] := by
  simp only [readText, logged, Bool.false_eq_true, if_false, List.append_nil]
  split
  · split
    · split <;> exact h
    · exact h
  · exact h
  · exact h

end

/-- Without its traces a parser takes the same course with the same result and the same delayed
parsers, and its events are those of the traced parser without the traces; unless verbose, nothing
is logged at all. -/
theorem tracing_transparent (rules : Rules ρ) (verbose : Bool) (p : Parser ρ α) :
    (∀ c r, p.ShowsTraced rules verbose c → p.Reaches rules verbose c r →
      p.untraced.Reaches rules.untraced verbose c r.untraced ∧ r.untraced.notes = r.notes ∧
      (verbose = false → r.log = [])) ∧
    ∀ text name, p.ShowsTraced rules verbose (.start text name) →
      ¬ (p.parse rules verbose (.start text name)).TooDeep →
      (p.untraced.runText rules.untraced verbose text name =
          (p.runText rules verbose text name).untraced ∧
        (verbose = false → (p.runText rules verbose text name).log = [])) ∧
      ∀ consumeAll,
        p.untraced.readText rules.untraced verbose text name consumeAll =
          (p.readText rules verbose text name consumeAll).untraced ∧
        (verbose = false → (p.readText rules verbose text name consumeAll).log = []) := by
  constructor
  · rintro c r h ⟨hr, n, rfl⟩
    obtain ⟨m, hm⟩ := reproduced_untraced (Nat.le_refl n) h hr
    obtain ⟨hrun, hlog⟩ := Run.alike_butTraces_iff.1 (hm m (Nat.le_refl m))
    exact ⟨⟨hr, n, hrun⟩, Recorded.notes_untraced _, hlog⟩
  · intro text name h hdeep
    obtain ⟨hparse, hlog⟩ := parse_untraced h hdeep
    have hattempt := attempt_untraced hparse
    refine ⟨⟨runText_untraced hattempt, ?_⟩, fun consumeAll => ⟨readText_untraced _ hattempt, ?_⟩⟩
    · rintro rfl
      exact log_attempt (hlog rfl)
    · rintro rfl
      exact log_readText consumeAll (log_attempt (hlog rfl))

/-- The second character is to be the first one again, and is not: two traces tell of it. -/
theorem tracing_transparent_again :
    let rules : Rules fun _ => Empty := fun _ r => r.elim
    let shown : CodePoint → Except Fault Text := fun x => .ok [x]
    let p : Parser (fun _ => Empty) CodePoint := (trace "first" shown anyChar).bind fun x =>
      (trace "again" shown (char x)).orElse (delay "other" anyChar)
    let c : Cursor := .start "ab" []
    p.ShowsTraced rules true c ∧ ¬ (p.parse rules true c).TooDeep ∧
      p.Reaches rules true c (p.parse rules true c) ∧
      p.untraced.Reaches rules.untraced true c (p.parse rules true c).untraced ∧
      (p.parse rules true c).events.length = 5 ∧
      (p.untraced.readText rules.untraced true "ab" [] true).result = .ok 'b' ∧
      (p.untraced.readText rules.untraced true "ab" [] true).events = [.built "other"] := by
  intro rules shown p c
  have htotal : ∀ v, ∃ t, shown v = .ok t := fun v => ⟨[v], rfl⟩
  have hcan : p.CanShow := ⟨⟨htotal, trivial⟩, fun x => ⟨⟨htotal, trivial⟩, trivial⟩⟩
  have hshows : p.ShowsTraced rules true c := hcan.showsTraced (fun r => r.elim) true c
  have hdeep : ¬ (p.parse rules true c).TooDeep := by decide +kernel
  have hreaches : p.Reaches rules true c (p.parse rules true c) := ⟨hdeep, nestingLimit, rfl⟩
  obtain ⟨hrun, hread⟩ := tracing_transparent rules true p
  refine ⟨hshows, hdeep, hreaches, (hrun c _ hshows hreaches).1, by decide +kernel, ?_⟩
  rw [((hread "ab" [] hshows hdeep).2 true).1]
  exact ⟨rfl, by decide +kernel⟩

end Parser
end Descent
