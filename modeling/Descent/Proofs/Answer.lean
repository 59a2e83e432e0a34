import Descent.Proofs.Position
import Descent.Proofs.Stalling

/-!
# Answers

An `Answer` is an outcome told without a place: a value and the text that was taken, or how far in
the text a failure stands. `Run.Answers f t a notes` says that `f` ends as `a` says wherever `t` is
left to read, and asks for the delayed parsers in `notes`, in that order. Each operation on runs
has its rules below; an answer is unique (`Run.Answers.unique`).
-/

namespace Descent

namespace Cursor

def skip (c : Cursor) (s : Text) : Cursor :=
  ⟨c.text, c.offset + s.length, c.position.updateAll s⟩

variable {c : Cursor}

@[simp] theorem skip_nil : c.skip [] = c := rfl

theorem skip_append (c : Cursor) (s t : Text) : c.skip (s ++ t) = (c.skip s).skip t := by
  simp [skip, Position.updateAll_append, Nat.add_assoc]

theorem unread_skip {s t : Text} (h : c.unread = s ++ t) : (c.skip s).unread = t := by
  show c.text.toList.drop (c.offset + s.length) = t
  rw [← List.drop_drop]
  show c.unread.drop s.length = t
  rw [h, List.drop_left]

theorem unreadCount_skip {s t : Text} (h : c.unread = s ++ t) :
    (c.skip s).unreadCount < c.unreadCount ↔ s ≠ [] := by
  rw [← length_unread, ← length_unread, unread_skip h, h, List.length_append]
  cases s with
  | nil => simp
  | cons x s => simp

end Cursor

inductive Answer (α : Type) where
  | took (v : α) (s : Text)
  | missed (s message : Text)
  | stopped (a : Abort)

namespace Answer

variable {α β : Type}

/-- The outcome of an answer at a cursor. -/
def outcome (c : Cursor) : Answer α → Outcome α
  | took v s => .success v (c.skip s)
  | missed s message => .failure ⟨c.position.updateAll s, message⟩
  | stopped a => .abort a

/-- What an answer consumes or fails behind is a prefix of the text. -/
def Within (t : Text) : Answer α → Prop
  | took _ s | missed s _ => s <+: t
  | stopped _ => True

/-- The answer when a text was taken before. -/
def behind (s : Text) : Answer α → Answer α
  | took v u => took v (s ++ u)
  | missed u message => missed (s ++ u) message
  | stopped a => stopped a

def tryMap (f : α → Except Fault β) : Answer α → Answer β
  | took v s => match f v with
    | .ok w => took w s
    | .error e => stopped (.fault e)
  | missed s message => missed s message
  | stopped a => stopped a

def filter (accepts : α → Except Fault Bool) (shown : α → Except Fault Text)
    (description : Text) : Answer α → Answer α
  | took v s => match accepts v with
    | .ok true => took v s
    | .ok false => match shown v with
      | .ok t => missed [] ("Expected " ++ description ++ ", but got " ++ t)
      | .error e => stopped (.fault e)
    | .error e => stopped (.fault e)
  | missed s _ => missed s ("Expected " ++ description ++ ", but reached the end of input")
  | stopped a => stopped a

def label (description : Text) : Answer α → Answer α
  | missed s message => if s = [] then missed [] ("Expected " ++ description) else missed s message
  | a => a

/-- Showing the value of a traced parser may stop the parse. -/
def traced (shown : α → Except Fault Text) : Answer α → Answer α
  | took v s => match shown v with
    | .ok _ => took v s
    | .error e => stopped (.fault e)
  | a => a

variable {a b : Answer α} {c : Cursor} {t : Text}

theorem behind_append (s t : Text) : a.behind (s ++ t) = (a.behind t).behind s := by
  cases a with
  | took | missed => simp [behind]
  | stopped => rfl

theorem outcome_behind (s : Text) : (a.behind s).outcome c = a.outcome (c.skip s) := by
  cases a with
  | took v u => exact congrArg (Outcome.success v) (c.skip_append s u)
  | missed u message =>
    show Outcome.failure _ = Outcome.failure _
    rw [Position.updateAll_append]; rfl
  | stopped a => rfl

theorem outcome_tryMap (f : α → Except Fault β) :
    (a.tryMap f).outcome c = (a.outcome c).tryMap f := by
  cases a with
  | took v s => simp only [tryMap, outcome, Outcome.tryMap]; cases f v <;> rfl
  | missed | stopped => rfl

theorem outcome_filter (accepts : α → Except Fault Bool) (shown : α → Except Fault Text)
    (description : Text) : (a.filter accepts shown description).outcome c =
      (a.outcome c).filter accepts shown description c.position := by
  cases a with
  | took v s =>
    simp only [filter, outcome, Outcome.filter]
    rcases accepts v with e | _ | _
    · rfl
    · cases shown v <;> rfl
    · rfl
  | missed | stopped => rfl

/-- A failure is labelled if it stands in front of the text: no other has the start position. -/
theorem outcome_label (description : Text) :
    (a.label description).outcome c = (a.outcome c).label description c.position := by
  cases a with
  | took | stopped => rfl
  | missed s message =>
    simp only [label, outcome, Outcome.label, Position.updateAll_eq_self_iff]
    by_cases h : s = [] <;> simp [h]

theorem outcome_inj (ha : a.Within c.unread) (hb : b.Within c.unread)
    (h : a.outcome c = b.outcome c) : a = b := by
  cases a <;> cases b <;> simp only [outcome, Outcome.success.injEq, Outcome.failure.injEq,
    Outcome.abort.injEq, Failure.mk.injEq, Cursor.skip, Cursor.mk.injEq, reduceCtorEq] at h
  case took.took => rw [h.1, Position.updateAll_inj ha hb h.2.2.2]
  case missed.missed => rw [h.2, Position.updateAll_inj ha hb h.1]
  case stopped.stopped => rw [h]

theorem Within.behind {s : Text} (h : a.Within t) : (a.behind s).Within (s ++ t) := by
  cases a with
  | took | missed => exact List.prefix_append_right_inj s |>.2 h
  | stopped => trivial

theorem Within.tryMap (f : α → Except Fault β) (h : a.Within t) : (a.tryMap f).Within t := by
  cases a with
  | took v s =>
    simp only [Answer.tryMap]
    cases f v with
    | ok w => exact h
    | error e => trivial
  | missed | stopped => exact h

theorem Within.filter (accepts : α → Except Fault Bool) (shown : α → Except Fault Text)
    (description : Text) (h : a.Within t) : (a.filter accepts shown description).Within t := by
  cases a with
  | took v s =>
    simp only [Answer.filter]
    rcases accepts v with e | _ | _
    · trivial
    · cases shown v with
      | ok t => exact List.nil_prefix
      | error e => trivial
    · exact h
  | missed | stopped => exact h

theorem Within.label (description : Text) (h : a.Within t) : (a.label description).Within t := by
  cases a with
  | took | stopped => exact h
  | missed s message =>
    simp only [Answer.label]
    split
    · exact List.nil_prefix
    · exact h

theorem Within.traced (shown : α → Except Fault Text) (h : a.Within t) :
    (a.traced shown).Within t := by
  cases a with
  | took v s =>
    simp only [Answer.traced]
    cases shown v with
    | ok t => exact h
    | error e => trivial
  | missed | stopped => exact h

end Answer

/-! ### Runs -/

/-- The notes of the delayed parsers that were asked for, in order. -/
def Recorded.notes {β : Type} (r : Recorded β) : List Text := r.events.filterMap Event.note?

theorem Recorded.notes_after {β : Type} (es : List Event) (r : Recorded β) :
    (r.after es).notes = es.filterMap Event.note? ++ r.notes := List.filterMap_append

namespace Run

variable {α β : Type}

/-- Wherever `t` is left to read, `f` ends as `a` says and asks for the parsers in `notes`. -/
structure Answers (f : Cursor → Run α) (t : Text) (a : Answer α) (notes : List Text) : Prop where
  within : a.Within t
  result : ∀ c : Cursor, c.unread = t → (f c).result = a.outcome c
  notes : ∀ c : Cursor, c.unread = t → (f c).notes = notes

namespace Answers

variable {f g : Cursor → Run α} {s t : Text} {a : Answer α} {ns ms : List Text}

theorem unique {b : Answer α} (h : Answers f t a ns) (h' : Answers f t b ms) :
    a = b ∧ ns = ms := by
  have ht := Cursor.unread_start t []
  constructor
  · refine Answer.outcome_inj (c := .start t []) ?_ ?_ ?_
    · rw [ht]; exact h.within
    · rw [ht]; exact h'.within
    · rw [← h.result _ ht, h'.result _ ht]
  · rw [← h.notes _ ht, h'.notes _ ht]

theorem congr (h : ∀ c : Cursor, c.unread = t → f c = g c) (hg : Answers g t a ns) :
    Answers f t a ns :=
  ⟨hg.within, fun c hc => h c hc ▸ hg.result c hc, fun c hc => h c hc ▸ hg.notes c hc⟩

theorem skip (s : Text) (h : Answers f t a ns) :
    Answers (fun c => f (c.skip s)) (s ++ t) (a.behind s) ns := by
  refine ⟨h.within.behind, fun c hc => ?_, fun c hc => h.notes _ (Cursor.unread_skip hc)⟩
  rw [h.result _ (Cursor.unread_skip hc), Answer.outcome_behind]

theorem after {es : Cursor → List Event}
    (hes : ∀ c : Cursor, c.unread = t → (es c).filterMap Event.note? = ns)
    (h : Answers f t a ms) : Answers (fun c => (f c).after (es c)) t a (ns ++ ms) := by
  refine ⟨h.within, h.result, fun c hc => ?_⟩
  rw [Recorded.notes_after, hes c hc, h.notes c hc]

/-- A run that ends by itself, with the events of another one. -/
theorem ended {b : Answer β} (hb : b.Within t) (h : Answers f t a ns) :
    Answers (fun c => ⟨b.outcome c, (f c).events⟩) t b ns :=
  ⟨hb, fun _ _ => rfl, h.notes⟩

theorem andThen {k : α → Cursor → Run β} {b : Answer β} {v : α}
    (hf : Answers f (s ++ t) (.took v s) ns) (hk : Answers (k v) t b ms) :
    Answers (fun c => (f c).andThen k) (s ++ t) (b.behind s) (ns ++ ms) := by
  refine (hk.skip s).after hf.notes |>.congr fun c hc => ?_
  rw [Run.andThen, hf.result c hc]; rfl

theorem andThen_missed {k : α → Cursor → Run β} {message : Text}
    (hf : Answers f t (.missed s message) ns) :
    Answers (fun c => (f c).andThen k) t (.missed s message) ns := by
  have hs : s <+: t := hf.within
  refine hf.ended (b := (.missed s message : Answer β)) hs |>.congr fun c hc => ?_
  rw [Run.andThen, hf.result c hc]; rfl

theorem andThen_stopped {k : α → Cursor → Run β} {e : Abort} (hf : Answers f t (.stopped e) ns) :
    Answers (fun c => (f c).andThen k) t (.stopped e) ns := by
  refine hf.ended (b := .stopped e) trivial |>.congr fun c hc => ?_
  rw [Run.andThen, hf.result c hc]; rfl

/-- A function on outcomes that sees the start position acts on answers if it does so at every
cursor. -/
theorem map {F : Position → Outcome α → Outcome β} {b : Answer β} (hb : b.Within t)
    (hF : ∀ c : Cursor, b.outcome c = F c.position (a.outcome c)) (h : Answers f t a ns) :
    Answers (fun c => (f c).map (F c.position)) t b ns := by
  refine ⟨hb, fun c hc => ?_, h.notes⟩
  rw [hF, ← h.result c hc]; rfl

theorem tryMap (w : α → Except Fault β) (h : Answers f t a ns) :
    Answers (fun c => (f c).map (·.tryMap w)) t (a.tryMap w) ns :=
  h.map (F := fun _ o => o.tryMap w) (h.within.tryMap w) fun _ => Answer.outcome_tryMap w

theorem filter (accepts : α → Except Fault Bool) (shown : α → Except Fault Text)
    (description : Text) (h : Answers f t a ns) :
    Answers (fun c => (f c).map (·.filter accepts shown description c.position)) t
      (a.filter accepts shown description) ns :=
  h.map (F := fun p o => o.filter accepts shown description p)
    (h.within.filter accepts shown description) fun _ => Answer.outcome_filter ..

theorem label (description : Text) (h : Answers f t a ns) :
    Answers (fun c => (f c).map (·.label description c.position)) t (a.label description) ns :=
  h.map (F := fun p o => o.label description p) (h.within.label description)
    fun _ => Answer.outcome_label description

theorem orElse_missed {message : Text} (hf : Answers f t (.missed s message) ns)
    (hg : Answers g t a ms) : Answers (fun c => (f c).orElse fun _ => g c) t a (ns ++ ms) := by
  refine hg.after hf.notes |>.congr fun c hc => ?_
  rw [Run.orElse, hf.result c hc]; rfl

theorem orElse (ha : ∀ s message, a ≠ .missed s message) (hf : Answers f t a ns) :
    Answers (fun c => (f c).orElse fun _ => g c) t a ns := by
  refine hf.congr fun c hc => ?_
  rw [Run.orElse, hf.result c hc]
  cases a with
  | took | stopped => rfl
  | missed s message => exact absurd rfl (ha s message)

theorem firstOf_nil {message : Text} (hs : s <+: t) :
    Answers (fun c => Run.firstOf (α := α) ⟨c.position.updateAll s, message⟩ []) t
      (.missed s message) [] :=
  ⟨hs, fun _ _ => rfl, fun _ _ => rfl⟩

theorem firstOf_missed {last : Cursor → Failure} {fs : List (Cursor → Run α)} {message : Text}
    (hf : Answers f t (.missed s message) ns)
    (hfs : Answers (fun c => Run.firstOf ⟨c.position.updateAll s, message⟩
      (fs.map fun f _ => f c)) t a ms) :
    Answers (fun c => Run.firstOf (last c) ((f :: fs).map fun f _ => f c)) t a (ns ++ ms) := by
  refine hfs.after hf.notes |>.congr fun c hc => ?_
  simp only [List.map_cons, Run.firstOf, hf.result c hc]; rfl

theorem firstOf {last : Cursor → Failure} {fs : List (Cursor → Run α)}
    (ha : ∀ s message, a ≠ .missed s message) (hf : Answers f t a ns) :
    Answers (fun c => Run.firstOf (last c) ((f :: fs).map fun f _ => f c)) t a ns := by
  refine hf.congr fun c hc => ?_
  simp only [List.map_cons, Run.firstOf, hf.result c hc]
  cases a with
  | took | stopped => rfl
  | missed s message => exact absurd rfl (ha s message)

/-- A traced run has the notes of the run: the events around it are no requests. -/
theorem traced (name : Text) (shown : α → Except Fault Text) (h : Answers f t a ns) :
    Answers (fun c => (f c).traced name shown c.position) t (a.traced shown) ns := by
  refine ⟨h.within.traced shown, fun c hc => ?_, fun c hc => ?_⟩
  · show (Run.tracedEnd name shown (f c).result).result = _
    rw [h.result c hc]
    cases a with
    | took v s =>
      simp only [Answer.outcome, Run.tracedEnd, Answer.traced]
      cases shown v <;> rfl
    | missed | stopped => rfl
  · have hend : ∀ o : Outcome α, (Run.tracedEnd name shown o).notes = [] := by
      intro o
      cases o with
      | success v d => simp only [Run.tracedEnd]; cases shown v <;> rfl
      | failure | abort => rfl
    rw [Run.traced, Recorded.notes_after, hend, List.append_nil]
    exact h.notes c hc

/-! ### Repetitions -/

section
variable {step : Cursor → Run β} {combine : α → β → Except Fault α} {acc acc' : α} {v : β}

/-- A round that misses ends a repetition and leaves no trace but its notes. -/
theorem foldWhile_missed {message : Text} (h : Answers step t (.missed s message) ns) :
    Answers (Run.foldWhile step combine acc) t (.took acc []) ns := by
  refine h.ended (b := .took acc []) List.nil_prefix |>.congr fun c hc => ?_
  rw [Run.foldWhile_eq, h.result c hc]; rfl

theorem foldWhile_stopped {e : Abort} (h : Answers step t (.stopped e) ns) :
    Answers (Run.foldWhile step combine acc) t (.stopped e) ns := by
  refine h.ended (b := .stopped e) trivial |>.congr fun c hc => ?_
  rw [Run.foldWhile_eq, h.result c hc]; rfl

theorem foldWhile_fault {e : Fault} (h : Answers step t (.took v s) ns)
    (hv : combine acc v = .error e) :
    Answers (Run.foldWhile step combine acc) t (.stopped (.fault e)) ns := by
  refine h.ended (b := .stopped (.fault e)) trivial |>.congr fun c hc => ?_
  rw [Run.foldWhile_eq, h.result c hc]
  simp only [Answer.outcome, hv]

/-- A round that takes nothing is repeated for ever if its value can always be combined. -/
theorem foldWhile_endless (h : Answers step t (.took v []) ns) (hv : combine acc v = .ok acc')
    (hnone : faultAfter combine v 1 acc' = none) :
    Answers (Run.foldWhile step combine acc) t (.stopped .endless) ns := by
  refine h.ended (b := .stopped .endless) trivial |>.congr fun c hc => ?_
  rw [Run.foldWhile_eq, h.result c hc]
  simp [Answer.outcome, hv, hnone, stalled, Run.abort, Recorded.after]

/-- Each time that a round is repeated it leaves its notes once more. -/
theorem foldWhile_stalled {n : Nat} {e : Fault} (h : Answers step t (.took v []) ns)
    (hv : combine acc v = .ok acc') (hsome : faultAfter combine v 1 acc' = some (n, e)) :
    Answers (Run.foldWhile step combine acc) t (.stopped (.fault e))
      (ns ++ (List.replicate n ns).flatten) := by
  have hrest : Answers (fun c => ⟨.abort (.fault e), (List.replicate n (step c).events).flatten⟩)
      t (.stopped (.fault e) : Answer α) (List.replicate n ns).flatten := by
    refine ⟨trivial, fun _ _ => rfl, fun c hc => ?_⟩
    rw [Recorded.notes, List.filterMap_flatten, List.map_replicate, ← h.notes c hc, Recorded.notes]
  refine hrest.after h.notes |>.congr fun c hc => ?_
  rw [Run.foldWhile_eq, h.result c hc]
  simp only [Answer.outcome, hv, Cursor.skip_nil, Nat.lt_irrefl, if_false, hsome, stalled]

theorem foldWhile {b : Answer α} (h : Answers step (s ++ t) (.took v s) ns) (hs : s ≠ [])
    (hv : combine acc v = .ok acc') (hw : Answers (Run.foldWhile step combine acc') t b ms) :
    Answers (Run.foldWhile step combine acc) (s ++ t) (b.behind s) (ns ++ ms) := by
  refine (hw.skip s).after h.notes |>.congr fun c hc => ?_
  rw [Run.foldWhile_eq, h.result c hc]
  simp only [Answer.outcome, hv, (Cursor.unreadCount_skip hc).2 hs, if_true]

end

end Answers
end Run
end Descent
