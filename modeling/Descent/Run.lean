import Descent.Cursor

/-!
# Outcomes and runs

A parse ends in an `Outcome`: a success with a value and the cursor behind what was consumed, a
failure at a position, or an abort, after which nothing else is tried. A `Run` is an outcome
together with the events on the way to it, oldest first. The operations on runs are the meanings of
the parser constructors: `andThen` for sequences, `orElse` and `firstOf` for alternatives,
`foldWhile` for repetitions.

A repetition goes on whether or not its rounds take anything, so it ends in a round that does not
succeed, in a fault, or not at all. Where a round takes nothing, only the value that is combined
still changes, and what is left to find is the fault that it comes to (`firstFault`).
-/

namespace Descent

/-- A mismatch between the text and what a parser expects of it. -/
structure Failure where
  position : Position
  message : Text
deriving DecidableEq

def Failure.toText (f : Failure) : Text :=
  "Parse error at " ++ f.position.toText ++ ": " ++ f.message

/-- Why a parse came neither to a value nor to a failure. -/
inductive Abort where
  | tooDeep
  /-- A repetition has no last round: a round takes nothing, and its value can be combined with
  those in front of it for ever. -/
  | endless
  | fault (f : Fault)
deriving DecidableEq

/-- Whether an abort is due to nesting, in the parser or in one of its callbacks. -/
def Abort.isNesting : Abort → Bool
  | tooDeep | fault .tooDeep | fault (.nesting _) => true
  | _ => false

inductive Outcome (α : Type) where
  | success (value : α) (rest : Cursor)
  | failure (f : Failure)
  | abort (a : Abort)
deriving DecidableEq

namespace Outcome

variable {α β : Type}

def tryMap (f : α → Except Fault β) : Outcome α → Outcome β
  | success v c => match f v with
    | .ok w => success w c
    | .error e => abort (.fault e)
  | failure f => failure f
  | abort a => abort a

/-- Turns a success whose value is not accepted into a failure at `start`, and words a failure as
one that reached the end of input. -/
def filter (accepts : α → Except Fault Bool) (shown : α → Except Fault Text) (description : Text)
    (start : Position) : Outcome α → Outcome α
  | success v c => match accepts v with
    | .ok true => success v c
    | .ok false => match shown v with
      | .ok t => failure ⟨start, "Expected " ++ description ++ ", but got " ++ t⟩
      | .error e => abort (.fault e)
    | .error e => abort (.fault e)
  | failure f =>
    failure ⟨f.position, "Expected " ++ description ++ ", but reached the end of input"⟩
  | abort a => abort a

/-- Words a failure at `start`, and no other. -/
def label (description : Text) (start : Position) : Outcome α → Outcome α
  | failure f => failure (if f.position = start then ⟨start, "Expected " ++ description⟩ else f)
  | o => o

end Outcome

inductive Event where
  /-- A delayed parser was asked for. -/
  | built (note : Text)
  | trying (name : Text) (position : Position)
  | matched (name shown : Text) (position : Position)
  | failed (name : Text) (f : Failure)
  /-- Nesting beyond the limit was turned into a failure. -/
  | cutOff (position : Position)
  /-- A reading of a whole text failed. -/
  | rejected (subject : Text) (f : Failure)
deriving DecidableEq

namespace Event

/-- The log line of an event; asking for a delayed parser is not logged. -/
def line? : Event → Option Text
  | built _ => none
  | trying name p => some ("trying " ++ name ++ " at " ++ p.toText)
  | matched name shown p => some (name ++ " matched " ++ shown ++ ", now at " ++ p.toText)
  | failed name f => some (name ++ " failed: " ++ f.toText)
  | cutOff p => some ("recursion limit hit while parsing from " ++ p.toText)
  | rejected subject f => some ("parse of " ++ subject ++ " failed: " ++ f.toText)

/-- The note of a delayed parser that was asked for. -/
def note? : Event → Option Text
  | built note => some note
  | _ => none

end Event

/-- A result and the events on the way to it, oldest first. -/
structure Recorded (β : Type) where
  result : β
  events : List Event

namespace Recorded

variable {α β : Type}

def map (f : α → β) (r : Recorded α) : Recorded β := ⟨f r.result, r.events⟩

def after (earlier : List Event) (r : Recorded α) : Recorded α := ⟨r.result, earlier ++ r.events⟩

@[simp] theorem after_nil (r : Recorded α) : r.after [] = r := rfl

theorem after_append (es fs : List Event) (r : Recorded α) :
    r.after (es ++ fs) = (r.after fs).after es := by
  simp [after]

end Recorded

abbrev Run (α : Type) := Recorded (Outcome α)

namespace Run

variable {α β : Type}

def success (v : α) (c : Cursor) : Run α := ⟨.success v c, []⟩

def failure (f : Failure) : Run α := ⟨.failure f, []⟩

def abort (a : Abort) : Run α := ⟨.abort a, []⟩

def andThen (r : Run α) (k : α → Cursor → Run β) : Run β :=
  match r.result with
  | .success v c => (k v c).after r.events
  | .failure f => ⟨.failure f, r.events⟩
  | .abort a => ⟨.abort a, r.events⟩

def orElse (r : Run α) (alternative : Unit → Run α) : Run α :=
  match r.result with
  | .failure _ => (alternative ()).after r.events
  | _ => r

/-- The first run that does not fail, or else the last failure. -/
def firstOf (last : Failure) : List (Unit → Run α) → Run α
  | [] => failure last
  | attempt :: attempts =>
    let r := attempt ()
    match r.result with
    | .failure f => (firstOf f attempts).after r.events
    | _ => r

/-- The end of a traced attempt: its outcome, and the event that tells of it. An abort leaves no
event, nor does a value that cannot be shown, which aborts the parse. -/
def tracedEnd (name : Text) (shown : α → Except Fault Text) : Outcome α → Run α
  | .success v c => match shown v with
    | .ok t => ⟨.success v c, [.matched name t c.position]⟩
    | .error e => ⟨.abort (.fault e), []⟩
  | .failure f => ⟨.failure f, [.failed name f]⟩
  | .abort a => ⟨.abort a, []⟩

/-- Brackets a run by a `trying` event and the event of its end. -/
def traced (name : Text) (shown : α → Except Fault Text) (start : Position) (r : Run α) : Run α :=
  (tracedEnd name shown r.result).after (.trying name start :: r.events)

/-- Combining `v` with `acc` at the time `n`, and from then on with what came of it before, comes to
the fault `e` at the time `m`. -/
inductive FaultsAt (combine : α → β → Except Fault α) (v : β) : Nat → α → Nat → Fault → Prop where
  | now {n : Nat} {acc : α} {e : Fault} (h : combine acc v = .error e) :
    FaultsAt combine v n acc n e
  | later {n m : Nat} {acc acc' : α} {e : Fault} (h : combine acc v = .ok acc')
    (ht : FaultsAt combine v (n + 1) acc' m e) : FaultsAt combine v n acc m e

section FaultsAt

variable {combine : α → β → Except Fault α} {v : β} {n m : Nat} {acc acc' : α} {e : Fault}

theorem faultsAt_of_error (h : combine acc v = .error e) {e' : Fault} :
    FaultsAt combine v n acc m e' ↔ n = m ∧ e = e' := by
  constructor
  · intro ht
    cases ht with
    | now he => exact ⟨rfl, Except.error.inj (h.symm.trans he)⟩
    | later hacc => cases h.symm.trans hacc
  · rintro ⟨rfl, rfl⟩
    exact .now h

theorem faultsAt_of_ok (h : combine acc v = .ok acc') :
    FaultsAt combine v n acc m e ↔ FaultsAt combine v (n + 1) acc' m e := by
  constructor
  · intro ht
    cases ht with
    | now he => cases h.symm.trans he
    | later hacc ht => exact Except.ok.inj (h.symm.trans hacc) ▸ ht
  · exact .later h

theorem FaultsAt.unique {m' : Nat} {e' : Fault} (h : FaultsAt combine v n acc m e)
    (h' : FaultsAt combine v n acc m' e') : m = m' ∧ e = e' := by
  induction h with
  | now he => exact (faultsAt_of_error he).mp h'
  | later hacc _ ih => exact ih ((faultsAt_of_ok hacc).mp h')

end FaultsAt

/-- The fault that combining `v` comes to, with its time, or nothing if it never comes to one. -/
def FirstFault (combine : α → β → Except Fault α) (v : β) (n : Nat) (acc : α) : Type :=
  {o : Option (Nat × Fault) // ∀ m e, o = some (m, e) ↔ FaultsAt combine v n acc m e}

instance (combine : α → β → Except Fault α) (v : β) (n : Nat) (acc : α) :
    Nonempty (FirstFault combine v n acc) := by
  by_cases h : ∃ m e, FaultsAt combine v n acc m e
  · obtain ⟨m, e, h⟩ := h
    refine ⟨some (m, e), fun m' e' => ⟨fun heq => ?_, fun h' => ?_⟩⟩
    · cases heq
      exact h
    · obtain ⟨rfl, rfl⟩ := h.unique h'
      rfl
  · exact ⟨none, fun m e => ⟨nofun, fun h' => (h ⟨m, e, h'⟩).elim⟩⟩

/-- Combines `v` until there is a fault. The search does not end if there is none, but its type
leaves it no choice: what holds of any result of the type holds of this one. -/
def firstFault (combine : α → β → Except Fault α) (v : β) :
    (p : Nat × α) → FirstFault combine v p.1 p.2 :=
  WellFounded.partialExtrinsicFix (fun q p => combine p.2 v = .ok q.2) fun p search =>
    match h : combine p.2 v with
    | .error e => ⟨some (p.1, e), by simp [faultsAt_of_error h]⟩
    | .ok acc =>
      let ⟨o, ho⟩ := search (p.1 + 1, acc) h
      ⟨o, by simp [faultsAt_of_ok h, ho]⟩

/-- The fault that comes of combining `v` with what came of it before, over and over, and the time
at which it comes, where `n` is the first one. -/
def faultAfter (combine : α → β → Except Fault α) (v : β) (n : Nat) (acc : α) :
    Option (Nat × Fault) :=
  (firstFault combine v (n, acc)).1

theorem faultAfter_eq_some_iff {combine : α → β → Except Fault α} {v : β} {n m : Nat} {acc : α}
    {e : Fault} : faultAfter combine v n acc = some (m, e) ↔ FaultsAt combine v n acc m e :=
  (firstFault combine v (n, acc)).2 m e

/-- What follows a round that took nothing, when its value is combined until there is a fault. Each
further round starts where that one did, so it has the same value and the same `events`. -/
def stalled (events : List Event) : Option (Nat × Fault) → Run α
  | some (n, e) => ⟨.abort (.fault e), (List.replicate n events).flatten⟩
  | none => abort .endless

/-- `foldWhile` with the events so far, newest first. -/
def foldWhileFrom (step : Cursor → Run β) (combine : α → β → Except Fault α) (past : List Event)
    (acc : α) (c : Cursor) : Run α :=
  let r := step c
  let past := r.events.reverse ++ past
  match r.result with
  | .failure _ => ⟨.success acc c, past.reverse⟩
  | .abort a => ⟨.abort a, past.reverse⟩
  | .success v d =>
    match combine acc v with
    | .error e => ⟨.abort (.fault e), past.reverse⟩
    | .ok acc =>
      if d.unreadCount < c.unreadCount then foldWhileFrom step combine past acc d
      else (stalled r.events (faultAfter combine v 1 acc)).after past.reverse
termination_by c.unreadCount

/-- Repeats a step until it fails, combining the values from the left, and ends at the cursor in
front of the step that failed. -/
def foldWhile (step : Cursor → Run β) (combine : α → β → Except Fault α) (acc : α) (c : Cursor) :
    Run α :=
  foldWhileFrom step combine [] acc c

theorem foldWhileFrom_eq (step : Cursor → Run β) (combine : α → β → Except Fault α)
    (past : List Event) (acc : α) (c : Cursor) :
    foldWhileFrom step combine past acc c = (foldWhile step combine acc c).after past.reverse := by
  suffices ∀ n, ∀ past acc c, c.unreadCount = n → foldWhileFrom step combine past acc c =
      (foldWhile step combine acc c).after past.reverse from this _ past acc c rfl
  intro n
  induction n using Nat.strongRecOn with
  | _ n ih =>
    intro past acc c hn
    rw [foldWhile, foldWhileFrom, foldWhileFrom]
    cases (step c).result with
    | failure f => simp [Recorded.after]
    | abort a => simp [Recorded.after]
    | success v d =>
      cases hv : combine acc v with
      | error e => simp [hv, Recorded.after]
      | ok acc' =>
        by_cases hd : d.unreadCount < c.unreadCount
        · simp only [hv, hd, if_true]
          rw [ih _ (hn ▸ hd) _ _ _ rfl, ih _ (hn ▸ hd) _ _ _ rfl, ← Recorded.after_append]
          simp
        · simp only [hv, hd, if_false]
          rw [← Recorded.after_append]
          simp

theorem foldWhile_eq (step : Cursor → Run β) (combine : α → β → Except Fault α) (acc : α)
    (c : Cursor) :
    foldWhile step combine acc c = match (step c).result with
      | .failure _ => ⟨.success acc c, (step c).events⟩
      | .abort a => ⟨.abort a, (step c).events⟩
      | .success v d =>
        match combine acc v with
        | .error e => ⟨.abort (.fault e), (step c).events⟩
        | .ok acc =>
          if d.unreadCount < c.unreadCount then
            (foldWhile step combine acc d).after (step c).events
          else
            (stalled (step c).events (faultAfter combine v 1 acc)).after (step c).events := by
  rw [foldWhile, foldWhileFrom]
  cases (step c).result with
  | failure f => simp
  | abort a => simp
  | success v d =>
    cases hv : combine acc v with
    | error e => simp [hv]
    | ok acc' => simp [hv, foldWhileFrom_eq]

end Run
end Descent
