import Descent.Parser.Reading
import Descent.Proofs.Calls
import Descent.Proofs.Faults

/-!
# Steps of a run

`p.steps rules verbose n c` lists what the run of `p` at `c` does, in order: the parsers that it
starts, the callbacks that it calls, the events that it records, and where it is aborted. What
stands behind the steps of a part depends on how the part ends, as in `Parser.run`.

An abort is the last step. No parser is started after it, no callback is called and nothing is
recorded, in whatever alternatives, repetitions and labels it occurs (`Parser.narrates_run`); and
the steps of a part stand among those of the whole (`Parser.embeds_steps`).
-/

namespace Descent

/-- One thing that a run does. -/
inductive Step (ρ : Type → Type) where
  | starts (T : Task ρ)
  | calls
  | records (e : Event)
  /-- A callback ends in a fault, depth is exhausted, or a repetition has no end. -/
  | aborts (a : Abort)

namespace Step

variable {ρ : Type → Type}

def event? : Step ρ → Option Event
  | records e => some e
  | _ => none

/-- The abort that a callback which does not return leads to. -/
def ofFault {α : Type} : Except Fault α → List (Step ρ)
  | .ok _ => []
  | .error e => [aborts (.fault e)]

/-- The steps behind an outcome if it is a success. -/
def ifSuccess {α : Type} (o : Outcome α) (s : α → Cursor → List (Step ρ)) : List (Step ρ) :=
  match o with
  | .success v c => s v c
  | _ => []

/-- The steps behind an outcome if it is a failure. -/
def ifFailure {α : Type} (o : Outcome α) (s : List (Step ρ)) : List (Step ρ) :=
  match o with
  | .failure _ => s
  | _ => []

/-- The steps of alternatives, each with how it ends, up to the first one that does not fail. -/
def ofAlternatives {α : Type} : List (Outcome α × List (Step ρ)) → List (Step ρ)
  | [] => []
  | (o, s) :: rest => s ++ ifFailure o (ofAlternatives rest)

/-- The steps that follow a round that took nothing: those of the round once more each time, and
the abort that the repetition ends in. -/
def ofStalled (round : List (Step ρ)) : Option (Nat × Fault) → List (Step ρ)
  | some (n, e) => (List.replicate n round).flatten ++ [aborts (.fault e)]
  | none => [aborts .endless]

/-- The steps of a repetition, where `s` has those of a round and `before` those that lead to the
combination of values. -/
def ofRounds {α β : Type} (step : Cursor → Run β) (s : Cursor → List (Step ρ))
    (before : List (Step ρ)) (combine : α → β → Except Fault α) (acc : α) (c : Cursor) :
    List (Step ρ) :=
  s c ++ ifSuccess (step c).result fun v d => before ++ match combine acc v with
    | .error e => [aborts (.fault e)]
    | .ok acc =>
      if d.unreadCount < c.unreadCount then ofRounds step s before combine acc d
      else ofStalled (s c ++ before) (Run.faultAfter combine v 1 acc)
termination_by c.unreadCount

/-- The steps that tell of the end of a traced attempt. -/
def ofTracedEnd {α : Type} (name : Text) (shown : α → Except Fault Text) :
    Outcome α → List (Step ρ)
  | .success v c => calls :: match shown v with
    | .ok t => [records (.matched name t c.position)]
    | .error e => [aborts (.fault e)]
  | .failure f => [records (.failed name f)]
  | .abort _ => []

end Step

namespace Parser

variable {ρ : Type → Type}

def steps (rules : Rules ρ) (verbose : Bool) : Nat → {α : Type} → Parser ρ α → Cursor →
    List (Step ρ)
  | 0, _, _, _ => [.aborts .tooDeep]
  | n + 1, α, p, c => .starts ⟨p, c⟩ :: match α, p with
    | _, anyChar | _, eof | _, .pure _ | _, fail _ => []
    | _, throw fault => [.aborts (.fault fault)]
    | _, bind p k => steps rules verbose n p c ++
        Step.ifSuccess (p.run rules verbose n c).result fun v d =>
          .calls :: steps rules verbose n (k v) d
    | _, tryMap f p => steps rules verbose n p c ++
        Step.ifSuccess (p.run rules verbose n c).result fun v _ => .calls :: Step.ofFault (f v)
    | _, filter accepts shown _ p => steps rules verbose n p c ++
        Step.ifSuccess (p.run rules verbose n c).result fun v _ =>
          .calls :: match accepts v with
            | .ok true => []
            | .ok false => .calls :: Step.ofFault (shown v)
            | .error e => [.aborts (.fault e)]
    | _, label _ p => steps rules verbose n p c
    | _, orElse p q => steps rules verbose n p c ++
        Step.ifFailure (p.run rules verbose n c).result (steps rules verbose n q c)
    | _, anyOf _ ps => Step.ofAlternatives <| .ofFn fun i =>
        (((ps i).run rules verbose n c).result, steps rules verbose n (ps i) c)
    | _, many p => Step.ofRounds (p.run rules verbose n) (steps rules verbose n p) []
        (fun vs v => .ok (v :: vs)) [] c
    | _, chainLeft operand operator => steps rules verbose n operand c ++
        Step.ifSuccess (operand.run rules verbose n c).result fun v d =>
          Step.ofRounds (chainRound rules verbose operand operator n)
            (fun d => steps rules verbose n operator d ++
              Step.ifSuccess (operator.run rules verbose n d).result fun _ e =>
                steps rules verbose n operand e)
            [.calls] (fun v (f, w) => f v w) v d
    | _, trace name shown p =>
        if verbose then
          .records (.trying name c.position) :: (steps rules verbose n p c ++
            Step.ofTracedEnd name shown (p.run rules verbose n c).result)
        else steps rules verbose n p c
    | _, delay note p => .records (.built note) :: steps rules verbose n p c
    | _, ref r => steps rules verbose n (rules _ r) c

end Parser

/-! ### What the steps of a run tell of it -/

section
variable {ρ : Type → Type} {α β : Type} {s t : List (Step ρ)}

/-- No step is an abort. -/
def Unbroken (s : List (Step ρ)) : Prop := ∀ a, .aborts a ∉ s

theorem Unbroken.nil : Unbroken (ρ := ρ) [] := by simp [Unbroken]

theorem Unbroken.cons {x : Step ρ} (hx : ∀ a, .aborts a ≠ x) (hs : Unbroken s) :
    Unbroken (x :: s) := by
  intro a ha
  rcases List.mem_cons.1 ha with ha | ha
  · exact hx a ha
  · exact hs a ha

theorem Unbroken.calls (hs : Unbroken s) : Unbroken (.calls :: s) := hs.cons (by simp)

theorem Unbroken.append (hs : Unbroken s) (ht : Unbroken t) : Unbroken (s ++ t) := by
  intro a ha
  rcases List.mem_append.1 ha with ha | ha
  · exact hs a ha
  · exact ht a ha

/-- The steps end in the abort that `o` is, and have no other. -/
def Tells (s : List (Step ρ)) : Outcome α → Prop
  | .abort a => ∃ s', Unbroken s' ∧ s = s' ++ [.aborts a]
  | .success .. | .failure _ => Unbroken s

theorem Tells.behind {o : Outcome α} (hs : Unbroken s) (h : Tells t o) : Tells (s ++ t) o := by
  cases o with
  | success | failure => exact hs.append h
  | abort a =>
    obtain ⟨t', ht', rfl⟩ := h
    exact ⟨s ++ t', hs.append ht', (List.append_assoc ..).symm⟩

theorem Tells.mem_iff {o : Outcome α} {a : Abort} (h : Tells s o) :
    .aborts a ∈ s ↔ o = .abort a := by
  cases o with
  | success | failure => exact iff_of_false (h a) (by simp)
  | abort b =>
    obtain ⟨s', hs', rfl⟩ := h
    simp only [List.mem_append, List.mem_singleton, Step.aborts.injEq, Outcome.abort.injEq]
    exact ⟨fun ha => ha.elim (fun ha => absurd ha (hs' a)) Eq.symm, fun ha => .inr ha.symm⟩

/-- The steps have the events of a run, and tell of its end. -/
structure Narrates (s : List (Step ρ)) (r : Run α) : Prop where
  events : s.filterMap Step.event? = r.events
  ending : Tells s r.result

namespace Narrates

variable {r : Run α}

theorem behind {es : List Event} (hs : Unbroken s) (hes : s.filterMap Step.event? = es)
    (h : Narrates t r) : Narrates (s ++ t) (r.after es) :=
  ⟨by rw [List.filterMap_append, hes, h.events]; rfl, h.ending.behind hs⟩

theorem starts (T : Task ρ) (h : Narrates s r) : Narrates (.starts T :: s) r := by
  have hstart : Unbroken [.starts T] := Unbroken.nil.cons (by simp)
  exact h.behind hstart rfl

theorem calls (h : Narrates s r) : Narrates (.calls :: s) r :=
  h.behind Unbroken.nil.calls rfl

theorem abort (a : Abort) : Narrates (ρ := ρ) [.aborts a] (Run.abort (α := α) a) :=
  ⟨rfl, [], .nil, rfl⟩

/-- A run that ends with the steps that it has. -/
theorem ended {o : Outcome β} (ho : Tells s o) (h : Narrates s r) :
    Narrates (s ++ []) ⟨o, r.events⟩ := by
  rw [List.append_nil]
  exact ⟨h.events, ho⟩

/-- Something is done with the outcome of a run, in steps that record nothing. -/
theorem map {F : Outcome α → Outcome β} (ht : t.filterMap Step.event? = [])
    (hF : Tells (s ++ t) (F r.result)) (h : Narrates s r) : Narrates (s ++ t) (Recorded.map F r) :=
  ⟨by rw [List.filterMap_append, ht, List.append_nil]; exact h.events, hF⟩

/-- What is done with a value counts as no call if it is none of the callbacks of the parser. -/
theorem tryMap_ok (f : α → β) (h : Narrates s r) :
    Narrates s (Recorded.map (·.tryMap fun v => .ok (f v)) r) := by
  rcases r with ⟨o, es⟩
  cases o with
  | success | failure | abort => exact ⟨h.events, h.ending⟩

theorem andThen {k : α → Cursor → Run β} {t : α → Cursor → List (Step ρ)} (h : Narrates s r)
    (hk : ∀ v c, Narrates (t v c) (k v c)) :
    Narrates (s ++ Step.ifSuccess r.result t) (r.andThen k) := by
  rcases r with ⟨o, es⟩
  cases o with
  | success v c => exact (hk v c).behind h.ending h.events
  | failure | abort => exact h.ended h.ending

theorem orElse {q : Unit → Run α} (h : Narrates s r) (hq : Narrates t (q ())) :
    Narrates (s ++ Step.ifFailure r.result t) (r.orElse q) := by
  rcases r with ⟨o, es⟩
  cases o with
  | failure f => exact hq.behind h.ending h.events
  | success | abort => exact h.ended h.ending

theorem firstOf {n : Nat} {attempt : Fin n → Unit → Run α} {s : Fin n → List (Step ρ)}
    {last : Failure} (h : ∀ i, Narrates (s i) (attempt i ())) :
    Narrates (Step.ofAlternatives (.ofFn fun i => ((attempt i ()).result, s i)))
      (Run.firstOf last (.ofFn attempt)) := by
  induction n generalizing last with
  | zero => exact ⟨rfl, Unbroken.nil⟩
  | succ n ih =>
    have hfirst := h 0
    have hrest (last' : Failure) : Narrates _ (Run.firstOf last' (.ofFn fun i => attempt i.succ)) :=
      ih fun i => h i.succ
    simp only [List.ofFn_succ, Step.ofAlternatives, Run.firstOf]
    generalize attempt 0 () = r at hfirst ⊢
    rcases r with ⟨o, es⟩
    cases o with
    | failure f => exact (hrest f).behind hfirst.ending hfirst.events
    | success | abort => exact hfirst.ended hfirst.ending

/-- A round that took nothing and its callbacks, repeated up to a fault. -/
theorem stalled {es : List Event} (hs : Unbroken s) (hes : s.filterMap Step.event? = es)
    (o : Option (Nat × Fault)) :
    Narrates (Step.ofStalled s o) (Run.stalled (α := α) es o) := by
  cases o with
  | none => exact .abort .endless
  | some r =>
    rcases r with ⟨n, e⟩
    have hrounds : Unbroken (List.replicate n s).flatten ∧
        (List.replicate n s).flatten.filterMap Step.event? = (List.replicate n es).flatten := by
      induction n with
      | zero => exact ⟨.nil, rfl⟩
      | succ n ih =>
        simp only [List.replicate_succ, List.flatten_cons, List.filterMap_append]
        exact ⟨hs.append ih.1, by rw [hes, ih.2]⟩
    simpa [Run.abort, Run.stalled, Step.ofStalled, Recorded.after] using
      (Narrates.abort (ρ := ρ) (α := α) (.fault e)).behind hrounds.1 hrounds.2

theorem foldWhile {step : Cursor → Run β} {s : Cursor → List (Step ρ)} {before : List (Step ρ)}
    {combine : α → β → Except Fault α} {acc : α} {c : Cursor} (hbefore : Unbroken before)
    (hquiet : before.filterMap Step.event? = []) (h : ∀ c, Narrates (s c) (step c)) :
    Narrates (Step.ofRounds step s before combine acc c) (Run.foldWhile step combine acc c) := by
  -- A round that takes something is followed by a shorter repetition, any other one by itself.
  induction hn : c.unreadCount using Nat.strongRecOn generalizing acc c with
  | _ n ih =>
    have hround := h c
    rw [Step.ofRounds, Run.foldWhile_eq]
    generalize step c = r at hround ⊢
    rcases r with ⟨o, es⟩
    cases o with
    | failure | abort => exact hround.ended hround.ending
    | success v d =>
      have hbehind {t : List (Step ρ)} {r : Run α} (ht : Narrates t r) :
          Narrates (s c ++ (before ++ t)) (r.after es) :=
        (ht.behind hbefore hquiet).behind hround.ending hround.events
      simp only [Step.ifSuccess]
      cases hv : combine acc v with
      | error e => simpa [Run.abort, Recorded.after] using hbehind (.abort (.fault e))
      | ok acc' =>
        by_cases hd : d.unreadCount < c.unreadCount
        · simp only [hd, if_true]
          exact hbehind (ih _ (hn ▸ hd) rfl)
        · have hunbroken : Unbroken (s c) := hround.ending
          have hes : (s c ++ before).filterMap Step.event? = es := by
            rw [List.filterMap_append, hround.events, hquiet, List.append_nil]
          simp only [hd, if_false]
          exact hbehind (.stalled (hunbroken.append hbefore) hes _)

theorem traced {name : Text} {shown : α → Except Fault Text} {start : Position}
    (h : Narrates s r) : Narrates (.records (.trying name start) ::
      (s ++ Step.ofTracedEnd name shown r.result)) (r.traced name shown start) := by
  rcases r with ⟨o, es⟩
  have htrying {t : List (Step ρ)} {r' : Run α} (ht : Narrates t r') :
      Narrates (.records (.trying name start) :: t) (r'.after [.trying name start]) := by
    have hunbroken : Unbroken (ρ := ρ) [.records (.trying name start)] :=
      Unbroken.nil.cons (by simp)
    exact ht.behind hunbroken rfl
  have hend {t : List (Step ρ)} {r' : Run α} (hs : Unbroken s) (ht : Narrates t r') :
      Narrates (.records (.trying name start) :: (s ++ t)) (r'.after (.trying name start :: es)) :=
    htrying (ht.behind hs h.events)
  cases o with
  | success v d =>
    simp only [Step.ofTracedEnd, Run.traced, Run.tracedEnd]
    cases hv : shown v with
    | ok t => exact hend h.ending ⟨rfl, by simp [Tells, Unbroken]⟩
    | error e => exact hend h.ending (Narrates.abort _).calls
  | failure f =>
    exact hend h.ending ⟨rfl, by simp [Step.ofTracedEnd, Run.tracedEnd, Tells, Unbroken]⟩
  | abort a =>
    simpa [Step.ofTracedEnd, Run.traced, Run.tracedEnd, Recorded.after] using
      htrying (h.ended h.ending)

end Narrates

/-! ### Callbacks -/

theorem Tells.tryMap {o : Outcome α} (f : α → Except Fault β) (h : Tells s o) :
    Tells (s ++ Step.ifSuccess o fun v _ => .calls :: Step.ofFault (f v)) (o.tryMap f) := by
  cases o with
  | success v c =>
    have hs : Unbroken s := h
    simp only [Step.ifSuccess, Outcome.tryMap]
    cases f v with
    | ok w => exact hs.append Unbroken.nil.calls
    | error e => exact ⟨_, hs.append Unbroken.nil.calls, by simp [Step.ofFault]⟩
  | failure | abort =>
    simp only [Step.ifSuccess, List.append_nil]
    exact h

theorem Tells.filter {o : Outcome α} (accepts : α → Except Fault Bool)
    (shown : α → Except Fault Text) (description : Text) (start : Position) (h : Tells s o) :
    Tells (s ++ Step.ifSuccess o fun v _ => .calls :: match accepts v with
      | .ok true => []
      | .ok false => .calls :: Step.ofFault (shown v)
      | .error e => [.aborts (.fault e)]) (o.filter accepts shown description start) := by
  cases o with
  | success v c =>
    have hs : Unbroken s := h
    simp only [Step.ifSuccess, Outcome.filter]
    rcases accepts v with e | _ | _
    · exact ⟨_, hs.append Unbroken.nil.calls, by simp⟩
    · cases shown v with
      | ok t => exact hs.append Unbroken.nil.calls.calls
      | error e => exact ⟨_, hs.append Unbroken.nil.calls.calls, by simp [Step.ofFault]⟩
    · exact hs.append Unbroken.nil.calls
  | failure | abort =>
    simp only [Step.ifSuccess, List.append_nil]
    exact h

theorem Tells.label {o : Outcome α} (description : Text) (start : Position) (h : Tells s o) :
    Tells s (o.label description start) := by
  cases o with
  | success | failure | abort => exact h

end

namespace Step

variable {ρ : Type → Type} {α : Type}

@[simp] theorem event?_ofFault (r : Except Fault α) :
    (ofFault (ρ := ρ) r).filterMap event? = [] := by
  cases r <;> rfl

theorem event?_ifSuccess {o : Outcome α} {s : α → Cursor → List (Step ρ)}
    (hs : ∀ v c, (s v c).filterMap event? = []) : (ifSuccess o s).filterMap event? = [] := by
  cases o with
  | success v c => exact hs v c
  | failure | abort => rfl

end Step

namespace Parser

variable {ρ : Type → Type}

/-- The run of a parser is as its steps tell. -/
theorem narrates_run (rules : Rules ρ) (verbose : Bool) (n : Nat) {α : Type} (p : Parser ρ α)
    (c : Cursor) : Narrates (p.steps rules verbose n c) (p.run rules verbose n c) := by
  -- Whatever a parser runs has one unit of depth less.
  induction n generalizing α c with
  | zero => exact .abort .tooDeep
  | succ n ih =>
    have hstart {s : List (Step ρ)} {r : Run α} (h : Narrates s r) :
        Narrates (.starts ⟨p, c⟩ :: s) r := h.starts _
    cases p with
    | anyChar =>
      refine hstart ⟨rfl, ?_⟩
      show Tells [] c.readChar
      cases hu : c.unread with
      | nil => rw [Cursor.readChar_of_nil hu]; exact Unbroken.nil
      | cons x t => rw [Cursor.readChar_of_cons hu]; exact Unbroken.nil
    | eof =>
      refine hstart ⟨rfl, ?_⟩
      show Tells [] c.readEnd
      cases hu : c.unread with
      | nil => rw [Cursor.readEnd_of_nil hu]; exact Unbroken.nil
      | cons x t => rw [Cursor.readEnd_of_cons hu]; exact Unbroken.nil
    | pure | fail => exact hstart ⟨rfl, Unbroken.nil⟩
    | throw e => exact hstart (.abort _)
    | bind p k => exact hstart ((ih p c).andThen fun v d => (ih (k v) d).calls)
    | tryMap f p =>
      refine hstart ((ih p c).map (Step.event?_ifSuccess fun v d => ?_) ((ih p c).ending.tryMap f))
      exact Step.event?_ofFault (f v)
    | filter accepts shown description p =>
      refine hstart ((ih p c).map (Step.event?_ifSuccess fun v d => ?_)
        ((ih p c).ending.filter accepts shown description c.position))
      rcases accepts v with e | _ | _
      · rfl
      · exact Step.event?_ofFault (shown v)
      · rfl
    | label description p =>
      exact hstart ⟨(ih p c).events, (ih p c).ending.label description c.position⟩
    | orElse p q => exact hstart ((ih p c).orElse (ih q c))
    | anyOf k ps =>
      have hall : Narrates _ (Run.firstOf ⟨c.position, "Empty parser"⟩
          (.ofFn fun i _ => (ps i).run rules verbose n c)) := .firstOf fun i => ih (ps i) c
      exact hstart hall
    | many p =>
      have hrounds : Narrates _ (Run.foldWhile (p.run rules verbose n)
          (fun vs v => .ok (v :: vs)) [] c) := .foldWhile Unbroken.nil rfl fun d => ih p d
      exact hstart (hrounds.tryMap_ok List.reverse)
    | chainLeft operand operator =>
      refine hstart ((ih operand c).andThen fun v d => ?_)
      refine .foldWhile Unbroken.nil.calls rfl fun e => ?_
      exact (ih operator e).andThen fun f x => (ih operand x).tryMap_ok fun w => (f, w)
    | trace name shown p =>
      cases verbose with
      | false => exact hstart (ih p c)
      | true => exact hstart (ih p c).traced
    | delay note p =>
      refine hstart ((ih p c).behind (s := [.records (.built note)]) ?_ rfl)
      simp [Unbroken]
    | ref r => exact hstart (ih (rules _ r) c)

section
variable {rules : Rules ρ} {verbose : Bool} {n : Nat} {α : Type} {p : Parser ρ α} {c : Cursor}
  {a : Abort}

theorem aborts_mem_steps_iff : .aborts a ∈ p.steps rules verbose n c ↔
    (p.run rules verbose n c).result = .abort a :=
  (narrates_run rules verbose n p c).ending.mem_iff

theorem unbroken_steps (h : ∀ a, (p.run rules verbose n c).result ≠ .abort a) :
    Unbroken (p.steps rules verbose n c) :=
  fun a ha => h a (aborts_mem_steps_iff.1 ha)

end

/-! ### The steps of the parts -/

/-- With every parser that is started the steps hold all of its steps, at some depth up to `n`. -/
def Embeds (rules : Rules ρ) (verbose : Bool) (n : Nat) (s : List (Step ρ)) : Prop :=
  ∀ T : Task ρ, .starts T ∈ s → ∃ m ≤ n, T.parser.steps rules verbose m T.cursor <:+: s

namespace Embeds

variable {rules : Rules ρ} {verbose : Bool} {n : Nat} {s t : List (Step ρ)} {α β : Type}

theorem of_not_starts (h : ∀ T, .starts T ∉ s) : Embeds rules verbose n s :=
  fun T hT => absurd hT (h T)

theorem nil : Embeds rules verbose n [] := of_not_starts (by simp)

theorem append (hs : Embeds rules verbose n s) (ht : Embeds rules verbose n t) :
    Embeds rules verbose n (s ++ t) := by
  intro T hT
  rcases List.mem_append.1 hT with hT | hT
  · obtain ⟨m, hm, h⟩ := hs T hT
    exact ⟨m, hm, h.trans (List.prefix_append s t).isInfix⟩
  · obtain ⟨m, hm, h⟩ := ht T hT
    exact ⟨m, hm, h.trans (List.suffix_append s t).isInfix⟩

theorem cons {x : Step ρ} (hx : ∀ T, .starts T ≠ x) (hs : Embeds rules verbose n s) :
    Embeds rules verbose n (x :: s) := by
  have hfirst : Embeds rules verbose n [x] :=
    of_not_starts fun T hT => hx T (List.mem_singleton.1 hT)
  exact hfirst.append hs

theorem calls (hs : Embeds rules verbose n s) : Embeds rules verbose n (.calls :: s) :=
  hs.cons (by simp)

theorem ofFault (r : Except Fault α) : Embeds rules verbose n (Step.ofFault r) := by
  cases r with
  | ok v => exact nil
  | error e => exact of_not_starts (by simp [Step.ofFault])

theorem ifSuccess {o : Outcome α} {s : α → Cursor → List (Step ρ)}
    (h : ∀ v c, Embeds rules verbose n (s v c)) : Embeds rules verbose n (Step.ifSuccess o s) := by
  cases o with
  | success v c => exact h v c
  | failure | abort => exact nil

theorem ifFailure {o : Outcome α} (h : Embeds rules verbose n s) :
    Embeds rules verbose n (Step.ifFailure o s) := by
  cases o with
  | failure f => exact h
  | success | abort => exact nil

theorem ofAlternatives {l : List (Outcome α × List (Step ρ))}
    (h : ∀ x ∈ l, Embeds rules verbose n x.2) :
    Embeds rules verbose n (Step.ofAlternatives l) := by
  induction l with
  | nil => exact nil
  | cons x l ih =>
    have hrest := ih fun y hy => h y (List.mem_cons_of_mem x hy)
    exact (h x List.mem_cons_self).append hrest.ifFailure

theorem ofStalled (hs : Embeds rules verbose n s) (o : Option (Nat × Fault)) :
    Embeds rules verbose n (Step.ofStalled s o) := by
  cases o with
  | none => exact of_not_starts (by simp [Step.ofStalled])
  | some r =>
    rcases r with ⟨k, e⟩
    refine append ?_ (of_not_starts (by simp))
    induction k with
    | zero => exact nil
    | succ k ih => exact hs.append ih

theorem ofRounds {step : Cursor → Run β} {s : Cursor → List (Step ρ)} {before : List (Step ρ)}
    {combine : α → β → Except Fault α} {acc : α} {c : Cursor}
    (hbefore : Embeds rules verbose n before) (h : ∀ c, Embeds rules verbose n (s c)) :
    Embeds rules verbose n (Step.ofRounds step s before combine acc c) := by
  induction hn : c.unreadCount using Nat.strongRecOn generalizing acc c with
  | _ k ih =>
    rw [Step.ofRounds]
    refine (h c).append (ifSuccess fun v d => hbefore.append ?_)
    split
    · exact of_not_starts (by simp)
    · split
      · next hd => exact ih _ (hn ▸ hd) rfl
      · exact ofStalled ((h c).append hbefore) _

theorem ofTracedEnd (name : Text) (shown : α → Except Fault Text) (o : Outcome α) :
    Embeds rules verbose n (Step.ofTracedEnd name shown o) := by
  refine of_not_starts fun T hT => ?_
  cases o with
  | success v c => cases hv : shown v <;> simp [Step.ofTracedEnd, hv] at hT
  | failure | abort => simp [Step.ofTracedEnd] at hT

theorem of_le {m : Nat} (hmn : m ≤ n) (h : Embeds rules verbose m s) :
    Embeds rules verbose n s := by
  intro T hT
  obtain ⟨k, hk, hwithin⟩ := h T hT
  exact ⟨k, Nat.le_trans hk hmn, hwithin⟩

/-- The steps of a parser, behind which it is the first one that is started. -/
theorem starts {p : Parser ρ α} {c : Cursor}
    (hsteps : p.steps rules verbose n c = .starts ⟨p, c⟩ :: s)
    (h : Embeds rules verbose n s) : Embeds rules verbose n (.starts ⟨p, c⟩ :: s) := by
  intro T hT
  rcases List.mem_cons.1 hT with hT | hT
  · obtain rfl := Step.starts.inj hT
    exact ⟨n, Nat.le_refl n, hsteps ▸ List.infix_rfl⟩
  · obtain ⟨m, hm, hwithin⟩ := h T hT
    exact ⟨m, hm, hwithin.trans (List.suffix_cons _ s).isInfix⟩

end Embeds

theorem embeds_steps (rules : Rules ρ) (verbose : Bool) (n : Nat) {α : Type} (p : Parser ρ α)
    (c : Cursor) : Embeds rules verbose n (p.steps rules verbose n c) := by
  induction n generalizing α c with
  | zero => exact .of_not_starts (by simp [steps])
  | succ n ih =>
    have hpart {β : Type} (q : Parser ρ β) (d : Cursor) :
        Embeds rules verbose (n + 1) (q.steps rules verbose n d) := (ih q d).of_le (Nat.le_succ n)
    refine .starts rfl ?_
    cases p with
    | anyChar | eof | pure | fail => exact .nil
    | throw e => exact .of_not_starts (by simp)
    | bind p k => exact (hpart p c).append (.ifSuccess fun v d => (hpart (k v) d).calls)
    | tryMap f p => exact (hpart p c).append (.ifSuccess fun v _ => (Embeds.ofFault (f v)).calls)
    | filter accepts shown description p =>
      refine (hpart p c).append (.ifSuccess fun v _ => Embeds.calls ?_)
      rcases accepts v with e | _ | _
      · exact .of_not_starts (by simp)
      · exact (Embeds.ofFault (shown v)).calls
      · exact .nil
    | label description p => exact hpart p c
    | orElse p q => exact (hpart p c).append (hpart q c).ifFailure
    | anyOf k ps =>
      refine .ofAlternatives fun x hx => ?_
      obtain ⟨i, rfl⟩ := List.mem_ofFn.1 hx
      exact hpart (ps i) c
    | many p => exact .ofRounds .nil fun d => hpart p d
    | chainLeft operand operator =>
      refine (hpart operand c).append (.ifSuccess fun v d => .ofRounds Embeds.nil.calls fun e => ?_)
      exact (hpart operator e).append (.ifSuccess fun _ x => hpart operand x)
    | trace name shown p =>
      cases verbose with
      | false => exact hpart p c
      | true => exact ((hpart p c).append (.ofTracedEnd name shown _)).cons (by simp)
    | delay note p => exact (hpart p c).cons (by simp)
    | ref r => exact hpart (rules _ r) c

/-! ### The first fault is the last step -/

section
variable {rules : Rules ρ} {verbose : Bool} {α : Type} {p : Parser ρ α} {c : Cursor} {a : Abort}

theorem attempt_failure_of_nesting (h : (p.parse rules verbose c).result = .abort a)
    (ha : a.isNesting = true) : (p.attempt rules verbose c).result =
      .failure ⟨c.position, "Input nested too deeply"⟩ := by
  simp only [attempt, h, ha, if_true]

/-- Nesting that the parser or a callback ran into is told as a failure in front of the text. -/
theorem reading_of_nesting {text name : Text}
    (h : (p.parse rules verbose (.start text name)).result = .abort a) (ha : a.isNesting = true) :
    (p.runText rules verbose text name).result =
        .ok (.error ⟨⟨1, 1, name⟩, "Input nested too deeply"⟩) ∧
      ∀ consumeAll, (p.readText rules verbose text name consumeAll).result =
        .error (.failure ⟨⟨1, 1, name⟩, "Input nested too deeply"⟩) := by
  have hattempt : (p.attempt rules verbose (.start text name)).result =
      .failure ⟨⟨1, 1, name⟩, "Input nested too deeply"⟩ := attempt_failure_of_nesting h ha
  constructor
  · simp only [runText, Recorded.map, hattempt]
  · intro consumeAll
    simp only [readText, hattempt]

end

/-- An abort is what a run ends in, and its last step: behind a fault of a callback nothing is
tried, repeated, called or built. What a parser aborts in, the parsers that run it abort in too. A
reading of a text ends in that same abort, or in a failure in front of the text if the abort is due
to nesting. -/
theorem abort_is_last_step (rules : Rules ρ) (verbose : Bool) {α : Type} (p : Parser ρ α) :
    (∀ n c, (p.steps rules verbose n c).filterMap Step.event? = (p.run rules verbose n c).events) ∧
    (∀ n c a,
      .aborts a ∈ p.steps rules verbose n c ↔ (p.run rules verbose n c).result = .abort a) ∧
    (∀ n c a, .aborts a ∈ p.steps rules verbose n c →
      ∃ s, p.steps rules verbose n c = s ++ [.aborts a] ∧ ∀ b, .aborts b ∉ s) ∧
    (∀ n c (T : Task ρ), .starts T ∈ p.steps rules verbose n c → ∃ m ≤ n,
      T.parser.steps rules verbose m T.cursor <:+: p.steps rules verbose n c ∧
      ∀ a, (T.parser.run rules verbose m T.cursor).result = .abort a →
        (p.run rules verbose n c).result = .abort a) ∧
    ∀ text name a, .aborts a ∈ p.steps rules verbose nestingLimit (.start text name) →
      (a.isNesting = false →
        (p.runText rules verbose text name).result = .error a ∧
        ∀ consumeAll,
          (p.readText rules verbose text name consumeAll).result = .error (.abort a)) ∧
      (a.isNesting = true →
        (p.runText rules verbose text name).result =
            .ok (.error ⟨⟨1, 1, name⟩, "Input nested too deeply"⟩) ∧
        ∀ consumeAll, (p.readText rules verbose text name consumeAll).result =
          .error (.failure ⟨⟨1, 1, name⟩, "Input nested too deeply"⟩)) := by
  have hnarrates (n : Nat) (c : Cursor) := narrates_run rules verbose n p c
  have hresult (n : Nat) (c : Cursor) (a : Abort) : .aborts a ∈ p.steps rules verbose n c ↔
      (p.run rules verbose n c).result = .abort a := (hnarrates n c).ending.mem_iff
  refine ⟨fun n c => (hnarrates n c).events, hresult, fun n c a ha => ?_, fun n c T hT => ?_,
    fun text name a ha => ?_⟩
  · have hends := (hnarrates n c).ending
    rw [(hresult n c a).1 ha] at hends
    obtain ⟨s, hs, hsteps⟩ := hends
    exact ⟨s, hsteps, hs⟩
  · obtain ⟨m, hm, hwithin⟩ := embeds_steps rules verbose n p c T hT
    refine ⟨m, hm, hwithin, fun a ha => (hresult n c a).1 (hwithin.subset ?_)⟩
    exact (narrates_run rules verbose m T.parser T.cursor).ending.mem_iff.2 ha
  · have hparse := (hresult nestingLimit (.start text name) a).1 ha
    refine ⟨fun hnest => ⟨runText_abort_iff.2 ⟨hparse, hnest⟩, fun consumeAll => ?_⟩,
      reading_of_nesting hparse⟩
    exact (readText_abort_iff consumeAll).2 ⟨hparse, hnest⟩

/-- A callback gives up on the second character, in an alternative of a labelled repetition: the
alternative behind it is not built. An operator gives up in the third round of a chain, where no
round takes anything: its operand is built four times. -/
theorem abort_is_last_step_callback :
    let rules : Rules fun _ => Empty := fun _ r => r.elim
    let p (e : Fault) : Parser (fun _ => Empty) (List CodePoint) :=
      ((char 'a').orElse (((char 'b').tryMap fun _ => .error e).orElse
        (delay "never" anyChar))).many.label "letters"
    let boom : Fault := .reported "KeyError" "boom"
    let deep : Fault := .nesting "too deep"
    let add (v w : Nat) : Except Fault Nat := if v < 3 then .ok (v + w) else .error boom
    let chain : Parser (fun _ => Empty) Nat := (delay "operand" (.pure 1)).chainLeft (.pure add)
    .aborts (.fault boom) ∈ (p boom).steps rules true nestingLimit (.start "abc" []) ∧
    ((p boom).run rules true nestingLimit (.start "abc" [])).events = [] ∧
    ((p boom).runText rules true "abc" []).result = .error (.fault boom) ∧
    .aborts (.fault deep) ∈ (p deep).steps rules true nestingLimit (.start "abc" []) ∧
    ((p deep).readText rules true "abc" [] true).result =
      .error (.failure ⟨⟨1, 1, []⟩, "Input nested too deeply"⟩) ∧
    .aborts (.fault boom) ∈ chain.steps rules true nestingLimit (.start "abc" []) ∧
    (chain.run rules true nestingLimit (.start "abc" [])).events =
      List.replicate 4 (.built "operand") ∧
    (chain.runText rules true "abc" []).result = .error (.fault boom) := by
  intro rules p boom deep add chain
  have hrun (e : Fault) :
      (p e).run rules true nestingLimit (.start "abc" []) = .abort (.fault e) := by cbv
  obtain ⟨-, hboom, -, -, hraised⟩ := abort_is_last_step rules true (p boom)
  obtain ⟨-, hdeep, -, -, hread⟩ := abort_is_last_step rules true (p deep)
  have hboom := (hboom nestingLimit (.start "abc" []) _).2 (congrArg Recorded.result (hrun boom))
  have hdeep := (hdeep nestingLimit (.start "abc" []) _).2 (congrArg Recorded.result (hrun deep))
  obtain ⟨hraised, -⟩ := (hraised "abc" [] _ hboom).1 rfl
  obtain ⟨-, hread⟩ := (hread "abc" [] _ hdeep).2 rfl
  have hfault : Run.FaultsAt (fun v r => r.1 v r.2) (add, 1) 1 1 3 boom :=
    .later (show _ = Except.ok 2 from rfl) (.later (show _ = Except.ok 3 from rfl) (.now rfl))
  have hchain : chain.run rules true nestingLimit (.start "abc" []) =
      ⟨.abort (.fault boom), List.replicate 4 (.built "operand")⟩ :=
    congrArg (Recorded.after [.built "operand"]) (Run.foldWhile_of_stays rfl hfault)
  obtain ⟨-, hlast, -, -, hraises⟩ := abort_is_last_step rules true chain
  have hlast := (hlast nestingLimit (.start "abc" []) _).2 (congrArg Recorded.result hchain)
  obtain ⟨hraises, -⟩ := (hraises "abc" [] _ hlast).1 rfl
  exact ⟨hboom, congrArg Recorded.events (hrun boom), hraised, hdeep, hread true, hlast,
    congrArg Recorded.events hchain, hraises⟩

end Parser
end Descent
