import Descent.Proofs.Deepening
import Descent.Proofs.Tracing

/-!
# Brackets of a log

The lines that traced parsers write when they start and when they end are brackets, and what is
written in between is bracketed as well. A log is the lines of the steps of a run, and `Bracketed`
says which steps write a pair of brackets: those of one attempt of a traced parser, with a closing
line that tells how that attempt ended. An attempt that is aborted leaves its bracket open.

Every log is bracketed (`Parser.trace_log_bracketed`). All brackets are closed unless the run is
aborted, and then the open ones are those of the traced parsers that were being run (`Running`).
-/

namespace Descent

namespace Parser

variable {ρ : Type → Type}

def isTrace : {α : Type} → Parser ρ α → Bool
  | _, trace _ _ _ => true
  | _, _ => false

end Parser

namespace Outcome

variable {α : Type} {name : Text} {shown : α → Except Fault Text} {o : Outcome α}

/-- The line that tells how a traced attempt ended, if it did. -/
def closing? (name : Text) (shown : α → Except Fault Text) : Outcome α → Option Text
  | success v c => match shown v with
    | .ok t => some (name ++ " matched " ++ t ++ ", now at " ++ c.position.toText)
    | .error _ => none
  | failure f => some (name ++ " failed: " ++ f.toText)
  | abort _ => none

theorem closing?_eq_none_iff :
    o.closing? name shown = none ↔ ∃ a, (Run.tracedEnd name shown o).result = .abort a := by
  cases o with
  | success v c => cases hv : shown v <;> simp [closing?, Run.tracedEnd, hv]
  | failure | abort => simp [closing?, Run.tracedEnd]

end Outcome

namespace Step

variable {ρ : Type → Type} {x : Step ρ}

/-- The log line that a step writes. -/
def line? (x : Step ρ) : Option Text := x.event?.bind Event.line?

/-- Neither a line of the log nor the start of a traced parser. -/
def IsQuiet : Step ρ → Prop
  | starts T => T.parser.isTrace = false
  | records e => e.line? = none
  | calls | aborts _ => True

theorem IsQuiet.line?_eq (h : x.IsQuiet) : x.line? = none := by
  cases x with
  | records e => exact h
  | starts | calls | aborts => rfl

theorem line?_ofTracedEnd {α : Type} (name : Text) (shown : α → Except Fault Text)
    (o : Outcome α) :
    (ofTracedEnd (ρ := ρ) name shown o).filterMap line? = (o.closing? name shown).toList := by
  cases o with
  | success v c =>
    simp only [ofTracedEnd, Outcome.closing?]
    cases shown v <;> rfl
  | failure | abort => rfl

theorem starts_not_mem_ofTracedEnd {α : Type} (name : Text) (shown : α → Except Fault Text)
    (o : Outcome α) (T : Task ρ) : .starts T ∉ ofTracedEnd name shown o := by
  cases o with
  | success v d => cases hv : shown v <;> simp [ofTracedEnd, hv]
  | failure | abort => simp [ofTracedEnd]

end Step

section
variable {ρ : Type → Type}

/-- The steps, the lines that they write, and the traced parsers whose brackets they leave open,
outermost first. An attempt of a traced parser opens a bracket. If it ends, then the lines of its
parts stand in between, with all brackets closed, and a line behind them tells how it ended. If it
is aborted, then no steps stand behind its own. -/
inductive Bracketed (rules : Rules ρ) : List (Step ρ) → List Text → List (Task ρ) → Prop where
  | nil : Bracketed rules [] [] []
  | quiet {x : Step ρ} {s : List (Step ρ)} {lines : List Text} {opened : List (Task ρ)}
      (hx : x.IsQuiet) (hs : Bracketed rules s lines opened) :
      Bracketed rules (x :: s) lines opened
  | ended {α : Type} {n : Nat} {name : Text} {shown : α → Except Fault Text} {p : Parser ρ α}
      {c : Cursor} {closing : Text} {s : List (Step ρ)} {inner lines : List Text}
      {opened : List (Task ρ)}
      (hend : (p.run rules true n c).result.closing? name shown = some closing)
      (hp : Bracketed rules (p.steps rules true n c) inner [])
      (hs : Bracketed rules s lines opened) :
      Bracketed rules ((Parser.trace name shown p).steps rules true (n + 1) c ++ s)
        (("trying " ++ name ++ " at " ++ c.position.toText) :: (inner ++ closing :: lines)) opened
  | aborted {α : Type} {n : Nat} {name : Text} {shown : α → Except Fault Text} {p : Parser ρ α}
      {c : Cursor} {a : Abort} {inner : List Text} {opened : List (Task ρ)}
      (ha : ((Parser.trace name shown p).run rules true (n + 1) c).result = .abort a)
      (hp : Bracketed rules (p.steps rules true n c) inner opened) :
      Bracketed rules ((Parser.trace name shown p).steps rules true (n + 1) c)
        (("trying " ++ name ++ " at " ++ c.position.toText) :: inner)
        (⟨Parser.trace name shown p, c⟩ :: opened)

/-- The steps are all those of `T`, and its run is aborted. -/
def Task.BreaksOff (rules : Rules ρ) (a : Abort) (s : List (Step ρ)) (T : Task ρ) : Prop :=
  ∃ n, T.parser.steps rules true n T.cursor = s ∧
    (T.parser.run rules true n T.cursor).result = .abort a

/-- The traced parsers that are being run where the steps are aborted, outermost first: those whose
steps, from their start on, are all the steps that there are. -/
inductive Running (rules : Rules ρ) (a : Abort) : List (Step ρ) → List (Task ρ) → Prop where
  | nil : Running rules a [] []
  | inside {T : Task ρ} {s : List (Step ρ)} {Ts : List (Task ρ)} (htrace : T.parser.isTrace)
      (hT : T.BreaksOff rules a (.starts T :: s)) (hs : Running rules a s Ts) :
      Running rules a (.starts T :: s) (T :: Ts)
  | past {x : Step ρ} {s : List (Step ρ)} {Ts : List (Task ρ)}
      (hx : ∀ T, x = .starts T → T.parser.isTrace → ¬ T.BreaksOff rules a (.starts T :: s))
      (hs : Running rules a s Ts) : Running rules a (x :: s) Ts

variable {rules : Rules ρ} {s t : List (Step ρ)} {lines ms : List Text}
  {opened Ts : List (Task ρ)} {a : Abort} {α β : Type}

namespace Bracketed

theorem append (hs : Bracketed rules s lines []) (ht : Bracketed rules t ms opened) :
    Bracketed rules (s ++ t) (lines ++ ms) opened := by
  have hbehind (x y : Text) (l m : List Text) :
      (x :: (l ++ y :: m)) ++ ms = x :: (l ++ y :: (m ++ ms)) := by simp
  generalize hnone : ([] : List (Task ρ)) = none at hs
  induction hs with
  | nil => exact ht
  | quiet hx _ ih => exact .quiet hx (ih hnone)
  | ended hend hp _ _ ih =>
    rw [List.append_assoc, hbehind]
    exact .ended hend hp (ih hnone)
  | aborted => cases hnone

/-- An attempt that leaves its bracket open is aborted. -/
theorem closed (h : Bracketed rules s lines opened) (hs : Unbroken s) : opened = [] := by
  induction h with
  | nil => rfl
  | quiet hx _ ih => exact ih fun a ha => hs a (List.mem_cons_of_mem _ ha)
  | ended _ _ _ _ ih => exact ih fun a ha => hs a (List.mem_append_right _ ha)
  | aborted ha _ _ => exact absurd (Parser.aborts_mem_steps_iff.2 ha) (hs _)

end Bracketed

/-! ### All steps are bracketed -/

/-- The lines that the steps write are bracketed. -/
def HasBrackets (rules : Rules ρ) (s : List (Step ρ)) : Prop :=
  ∃ opened, Bracketed rules s (s.filterMap Step.line?) opened

namespace HasBrackets

theorem nil : HasBrackets rules [] := ⟨[], .nil⟩

theorem quiet {x : Step ρ} (hx : x.IsQuiet) (hs : HasBrackets rules s) :
    HasBrackets rules (x :: s) := by
  obtain ⟨opened, h⟩ := hs
  exact ⟨opened, by rw [List.filterMap_cons_none hx.line?_eq]; exact .quiet hx h⟩

theorem calls (hs : HasBrackets rules s) : HasBrackets rules (.calls :: s) := hs.quiet trivial

theorem aborts (a : Abort) : HasBrackets rules [.aborts a] := nil.quiet trivial

theorem append (hunbroken : Unbroken s) (hs : HasBrackets rules s) (ht : HasBrackets rules t) :
    HasBrackets rules (s ++ t) := by
  obtain ⟨opened, h⟩ := hs
  obtain ⟨opened', h'⟩ := ht
  obtain rfl := h.closed hunbroken
  exact ⟨opened', by rw [List.filterMap_append]; exact h.append h'⟩

theorem ifSuccess {o : Outcome α} {k : α → Cursor → List (Step ρ)} (ho : Tells s o)
    (hs : HasBrackets rules s) (hk : Unbroken s → ∀ v c, HasBrackets rules (k v c)) :
    HasBrackets rules (s ++ Step.ifSuccess o k) := by
  cases o with
  | success v c => exact hs.append ho (hk ho v c)
  | failure | abort =>
    simp only [Step.ifSuccess, List.append_nil]
    exact hs

theorem ifFailure {o : Outcome α} (ho : Tells s o) (hs : HasBrackets rules s)
    (ht : HasBrackets rules t) : HasBrackets rules (s ++ Step.ifFailure o t) := by
  cases o with
  | failure f => exact hs.append ho ht
  | success | abort =>
    simp only [Step.ifFailure, List.append_nil]
    exact hs

theorem ofAlternatives {l : List (Outcome α × List (Step ρ))} (ho : ∀ x ∈ l, Tells x.2 x.1)
    (hl : ∀ x ∈ l, HasBrackets rules x.2) : HasBrackets rules (Step.ofAlternatives l) := by
  induction l with
  | nil => exact nil
  | cons x l ih =>
    obtain ⟨hx, ho⟩ := List.forall_mem_cons.1 ho
    obtain ⟨hbrackets, hl⟩ := List.forall_mem_cons.1 hl
    exact hbrackets.ifFailure hx (ih ho hl)

theorem ofStalled (hunbroken : Unbroken s) (hs : HasBrackets rules s) (o : Option (Nat × Fault)) :
    HasBrackets rules (Step.ofStalled s o) := by
  cases o with
  | none => exact aborts _
  | some r =>
    rcases r with ⟨n, e⟩
    show HasBrackets rules ((List.replicate n s).flatten ++ [.aborts (.fault e)])
    induction n with
    | zero => exact aborts _
    | succ n ih =>
      rw [List.replicate_succ, List.flatten_cons, List.append_assoc]
      exact hs.append hunbroken ih

theorem ofRounds {step : Cursor → Run β} {s : Cursor → List (Step ρ)} {before : List (Step ρ)}
    {combine : α → β → Except Fault α} {acc : α} {c : Cursor} (hbefore : Unbroken before)
    (hquiet : HasBrackets rules before) (ho : ∀ c, Tells (s c) (step c).result)
    (hs : ∀ c, HasBrackets rules (s c)) :
    HasBrackets rules (Step.ofRounds step s before combine acc c) := by
  induction hn : c.unreadCount using Nat.strongRecOn generalizing acc c with
  | _ n ih =>
    rw [Step.ofRounds]
    refine (hs c).ifSuccess (ho c) fun hunbroken v d => hquiet.append hbefore ?_
    cases combine acc v with
    | error e => exact aborts _
    | ok acc' =>
      by_cases hd : d.unreadCount < c.unreadCount
      · simp only [hd, if_true]
        exact ih _ (hn ▸ hd) rfl
      · simp only [hd, if_false]
        exact .ofStalled (hunbroken.append hbefore) ((hs c).append hunbroken hquiet) _

theorem ofFault (r : Except Fault α) : HasBrackets rules (Step.ofFault r) := by
  cases r with
  | ok v => exact nil
  | error e => exact aborts _

theorem traced {n : Nat} {p : Parser ρ α} {c : Cursor} (name : Text)
    (shown : α → Except Fault Text) (hp : HasBrackets rules (p.steps rules true n c)) :
    HasBrackets rules ((Parser.trace name shown p).steps rules true (n + 1) c) := by
  obtain ⟨opened, hp⟩ := hp
  have hlines : ((Parser.trace name shown p).steps rules true (n + 1) c).filterMap Step.line? =
      ("trying " ++ name ++ " at " ++ c.position.toText) ::
        ((p.steps rules true n c).filterMap Step.line? ++
          ((p.run rules true n c).result.closing? name shown).toList) := by
    rw [← Step.line?_ofTracedEnd (ρ := ρ), ← List.filterMap_append]
    rfl
  rw [HasBrackets, hlines]
  cases hend : (p.run rules true n c).result.closing? name shown with
  | some closing =>
    have hreturns (a : Abort) : (p.run rules true n c).result ≠ .abort a := fun ha => by
      rw [ha] at hend
      cases hend
    obtain rfl := hp.closed (Parser.unbroken_steps hreturns)
    have hclosed := Bracketed.ended hend hp .nil
    rw [List.append_nil] at hclosed
    exact ⟨[], hclosed⟩
  | none =>
    obtain ⟨a, ha⟩ := Outcome.closing?_eq_none_iff.1 hend
    rw [Option.toList_none, List.append_nil]
    exact ⟨_, .aborted (a := a) ha hp⟩

end HasBrackets

theorem hasBrackets_steps (rules : Rules ρ) (n : Nat) {α : Type} (p : Parser ρ α) (c : Cursor) :
    HasBrackets rules (p.steps rules true n c) := by
  induction n generalizing α c with
  | zero => exact .aborts .tooDeep
  | succ n ih =>
    have htells {β : Type} (q : Parser ρ β) (d : Cursor) :=
      (Parser.narrates_run rules true n q d).ending
    have hstart {s : List (Step ρ)} (hp : p.isTrace = false) (hs : HasBrackets rules s) :
        HasBrackets rules (.starts ⟨p, c⟩ :: s) := hs.quiet hp
    cases p with
    | anyChar | eof | pure | fail => exact hstart rfl .nil
    | throw e => exact hstart rfl (.aborts _)
    | bind p k =>
      exact hstart rfl ((ih p c).ifSuccess (htells p c) fun _ v d => (ih (k v) d).calls)
    | tryMap f p =>
      exact hstart rfl ((ih p c).ifSuccess (htells p c) fun _ v _ =>
        (HasBrackets.ofFault (f v)).calls)
    | filter accepts shown description p =>
      refine hstart rfl ((ih p c).ifSuccess (htells p c) fun _ v _ => ?_)
      rcases accepts v with e | _ | _
      · exact (HasBrackets.aborts _).calls
      · exact (HasBrackets.ofFault (shown v)).calls.calls
      · exact HasBrackets.nil.calls
    | label description p => exact hstart rfl (ih p c)
    | orElse p q => exact hstart rfl ((ih p c).ifFailure (htells p c) (ih q c))
    | anyOf k ps =>
      refine hstart rfl (.ofAlternatives (fun x hx => ?_) fun x hx => ?_)
      · obtain ⟨i, rfl⟩ := List.mem_ofFn.1 hx
        exact htells (ps i) c
      · obtain ⟨i, rfl⟩ := List.mem_ofFn.1 hx
        exact ih (ps i) c
    | many p => exact hstart rfl (.ofRounds .nil .nil (htells p) (ih p))
    | chainLeft operand operator =>
      refine hstart rfl ((ih operand c).ifSuccess (htells operand c) fun _ v d => ?_)
      refine .ofRounds Unbroken.nil.calls HasBrackets.nil.calls (fun e => ?_) fun e =>
        (ih operator e).ifSuccess (htells operator e) fun _ _ x => ih operand x
      exact ((Parser.narrates_run rules true n operator e).andThen fun f x =>
        (Parser.narrates_run rules true n operand x).tryMap_ok fun w => (f, w)).ending
    | trace name shown p => exact (ih p c).traced name shown
    | delay note p => exact hstart rfl ((ih p c).quiet rfl)
    | ref r => exact hstart rfl (ih (rules _ r) c)

/-! ### The brackets that are left open -/

theorem Running.unique {Us : List (Task ρ)} (h : Running rules a s Ts)
    (h' : Running rules a s Us) : Ts = Us := by
  induction h generalizing Us with
  | nil =>
    cases h'
    rfl
  | inside htrace hT _ ih =>
    cases h' with
    | inside _ _ hs => rw [ih hs]
    | past hx _ => exact absurd hT (hx _ rfl htrace)
  | past hx _ ih =>
    cases h' with
    | inside htrace hT _ => exact absurd hT (hx _ rfl htrace)
    | past _ hs => exact ih hs

theorem Running.append_of_not_starts (hs : ∀ T, .starts T ∉ s) (ht : Running rules a t Ts) :
    Running rules a (s ++ t) Ts := by
  induction s with
  | nil => exact ht
  | cons x s ih =>
    refine .past (fun T hx => ?_) (ih fun T hT => hs T (List.mem_cons_of_mem x hT))
    exact absurd (hx ▸ List.mem_cons_self) (hs T)

theorem mem_steps_trace {n : Nat} {name : Text} {shown : α → Except Fault Text} {p : Parser ρ α}
    {c : Cursor} {x : Step ρ} (hx : x ∈ p.steps rules true n c) :
    x ∈ (Parser.trace name shown p).steps rules true (n + 1) c :=
  List.mem_cons_of_mem _ (List.mem_cons_of_mem _ (List.mem_append_left _ hx))

/-- Brackets are left open only in front of nothing else, so that `t` is empty or stands behind
closed ones. -/
theorem Bracketed.running (h : Bracketed rules s lines opened)
    (ha : ∀ b, .aborts b ∈ s → b = a) (ho : opened = [] ∨ t = []) (ht : Running rules a t Ts) :
    Running rules a (s ++ t) (opened ++ Ts) := by
  induction h generalizing t Ts with
  | nil => exact ht
  | quiet hx _ ih =>
    refine .past ?_ (ih (fun b hb => ha b (List.mem_cons_of_mem _ hb)) ho ht)
    rintro T rfl htrace -
    exact absurd (htrace.symm.trans hx) (by simp)
  | @ended _ n name shown p c closing s inner lines opened hend _ _ ihp ih =>
    have hsplit : (Parser.trace name shown p).steps rules true (n + 1) c ++ s ++ t =
        .starts ⟨Parser.trace name shown p, c⟩ :: .records (.trying name c.position) ::
          (p.steps rules true n c ++
            (Step.ofTracedEnd name shown (p.run rules true n c).result ++ (s ++ t))) := by
      simp only [← List.append_assoc]
      rfl
    have hs := (ih (fun b hb => ha b (List.mem_append_right _ hb)) ho ht).append_of_not_starts
      (Step.starts_not_mem_ofTracedEnd name shown (p.run rules true n c).result)
    have hp := ihp (fun b hb => ha b (List.mem_append_left s (mem_steps_trace hb))) (.inl rfl) hs
    rw [hsplit]
    refine .past ?_ (.past (fun T hT => by cases hT) hp)
    -- An attempt that has ended is not aborted at any other depth.
    rintro T hT - ⟨m, hsteps, habort⟩
    cases hT
    rw [← hsplit, List.append_assoc] at hsteps
    have hended : ∀ b, ((Parser.trace name shown p).run rules true (n + 1) c).result ≠ .abort b :=
      fun b hb => by cases (Outcome.closing?_eq_none_iff.2 ⟨b, hb⟩).symm.trans hend
    exact Parser.not_prefix_of_abort hended habort (hsteps ▸ List.prefix_append ..)
  | @aborted _ n name shown p c b inner opened hb hp ihp =>
    obtain rfl : t = [] := ho.resolve_left (by simp)
    cases ht
    obtain rfl := ha _ (Parser.aborts_mem_steps_iff.2 hb)
    have hclosed : opened = [] ∨
        Step.ofTracedEnd (ρ := ρ) name shown (p.run rules true n c).result = [] := by
      cases hr : (p.run rules true n c).result with
      | success | failure => exact .inl (hp.closed (Parser.unbroken_steps (by simp [hr])))
      | abort => exact .inr rfl
    have hnone : Running rules b
        (Step.ofTracedEnd (ρ := ρ) name shown (p.run rules true n c).result ++ []) [] :=
      Running.nil.append_of_not_starts (Step.starts_not_mem_ofTracedEnd _ _ _)
    rw [List.append_nil] at hnone
    have hinner := ihp (fun x hx => ha x (mem_steps_trace hx)) hclosed hnone
    rw [List.append_nil] at hinner ⊢
    rw [List.append_nil]
    exact .inside rfl ⟨_, rfl, hb⟩ (.past (fun T hT => by cases hT) hinner)

namespace Parser

/-- The log of a run at any depth is the lines of bracketed steps. All brackets are closed, also
those of attempts that a choice drops, unless the run is aborted. Then the open ones are those of
the traced parsers that are being run, and no others. -/
theorem trace_log_bracketed (rules : Rules ρ) (n : Nat) {α : Type} (p : Parser ρ α) (c : Cursor) :
    let r := p.run rules true n c
    let s := p.steps rules true n c
    ∃ opened, Bracketed rules s r.log opened ∧ ((∀ a, r.result ≠ .abort a) → opened = []) ∧
      ∀ a, r.result = .abort a → ∀ Ts, Running rules a s Ts ↔ Ts = opened := by
  intro r s
  have hlog : s.filterMap Step.line? = r.log := by
    rw [Recorded.log, ← (narrates_run rules true n p c).events, List.filterMap_filterMap]
    rfl
  obtain ⟨opened, h⟩ := hasBrackets_steps rules n p c
  rw [hlog] at h
  refine ⟨opened, h, fun hreturns => h.closed (unbroken_steps hreturns), fun a ha Ts => ?_⟩
  have hlast (b : Abort) (hb : .aborts b ∈ s) : b = a :=
    Outcome.abort.inj ((aborts_mem_steps_iff.1 hb).symm.trans ha)
  have hrunning := h.running hlast (.inr rfl) .nil
  rw [List.append_nil, List.append_nil] at hrunning
  exact ⟨fun hTs => hTs.unique hrunning, fun hTs => hTs ▸ hrunning⟩

/-- A choice whose first alternative fails, and whose second one succeeds or raises a fault. A chain
that takes nothing, and whose operator raises a fault in the third round. -/
theorem trace_log_bracketed_choice :
    let rules : Rules fun _ => Empty := fun _ r => r.elim
    let shown : CodePoint → Except Fault Text := fun x => .ok [x]
    let p (f : CodePoint → Except Fault CodePoint) : Parser (fun _ => Empty) CodePoint :=
      trace "outer" shown ((trace "first" shown (char 'a')).orElse
        (trace "second" shown ((char 'b').tryMap f)))
    let c : Cursor := .start "b" []
    let boom : Fault := .reported "KeyError" "boom"
    let lines : List Text := ["trying outer at line 1, column 1",
      "trying first at line 1, column 1",
      "first failed: Parse error at line 1, column 1: Expected a, but got b",
      "trying second at line 1, column 1"]
    let ends : List Text := ["second matched b, now at line 1, column 2",
      "outer matched b, now at line 1, column 2"]
    let add (v w : Nat) : Except Fault Nat := if v < 3 then .ok (v + w) else .error boom
    let one : Parser (fun _ => Empty) Nat := trace "one" (fun _ => .ok "1") (.pure 1)
    let chain := trace "chain" (fun _ => .ok []) (one.chainLeft (.pure add))
    let round : List Text := ["trying one at line 1, column 1",
      "one matched 1, now at line 1, column 1"]
    Bracketed rules ((p .ok).steps rules true 20 c) (lines ++ ends) [] ∧
    ∃ opened, Bracketed rules ((p fun _ => .error boom).steps rules true 20 c) lines opened ∧
      (∀ Ts, Running rules (.fault boom) ((p fun _ => .error boom).steps rules true 20 c) Ts ↔
        Ts = opened) ∧
    ∃ opened, Bracketed rules (chain.steps rules true 20 c)
        ("trying chain at line 1, column 1" :: (round ++ round ++ round ++ round)) opened ∧
      ∀ Ts, Running rules (.fault boom) (chain.steps rules true 20 c) Ts ↔ Ts = opened := by
  intro rules shown p c boom lines ends add one chain round
  obtain ⟨closed, hclosed, hreturns, -⟩ := trace_log_bracketed rules 20 (p .ok) c
  obtain ⟨opened, hopened, -, hraises⟩ :=
    trace_log_bracketed rules 20 (p fun _ => .error boom) c
  have hsuccess : ((p .ok).run rules true 20 c).result =
      .success 'b' ⟨c.text, 1, ⟨1, 2, []⟩⟩ := by decide +kernel
  have hlog : ((p .ok).run rules true 20 c).log = lines ++ ends := by decide +kernel
  have hlog' : ((p fun _ => .error boom).run rules true 20 c).log = lines := by decide +kernel
  obtain rfl := hreturns fun a ha => by rw [hsuccess] at ha; cases ha
  refine ⟨hlog ▸ hclosed, opened, hlog' ▸ hopened, hraises _ (by decide +kernel), ?_⟩
  have hfault : Run.FaultsAt (fun v r => r.1 v r.2) (add, 1) 1 1 3 boom :=
    .later (show _ = Except.ok 2 from rfl) (.later (show _ = Except.ok 3 from rfl) (.now rfl))
  obtain ⟨opened, hopened, -, hraises⟩ := trace_log_bracketed rules 20 chain c
  have hrounds : (one.chainLeft (.pure add)).run rules true 19 c = ⟨.abort (.fault boom),
      (List.replicate 4 [.trying "one" c.position, .matched "one" "1" c.position]).flatten⟩ :=
    congrArg (Recorded.after [.trying "one" c.position, .matched "one" "1" c.position])
      (Run.foldWhile_of_stays rfl hfault)
  have hchain : chain.run rules true 20 c = ⟨.abort (.fault boom), .trying "chain" c.position ::
      (List.replicate 4 [.trying "one" c.position, .matched "one" "1" c.position]).flatten⟩ :=
    congrArg (Run.traced "chain" (fun _ => .ok []) c.position) hrounds
  have hlog : (chain.run rules true 20 c).log =
      ("trying chain at line 1, column 1" :: (round ++ round ++ round ++ round) : List Text) := by
    rw [hchain]
    decide +kernel
  exact ⟨opened, hlog ▸ hopened, hraises _ (congrArg Recorded.result hchain)⟩

end Parser

end
end Descent
