import Descent.Parser.Depth
import Descent.Parser.Literal
import Descent.Proofs.Translation
import Mathlib.Data.List.OfFn

/-!
# Evaluation apart from depth

`p.Answers rules verbose t a`: with depth enough, `p` ends as `a` says wherever `t` is left to read.
The lemmas are the rules by which an answer is found from answers of smaller parsers, one or two for
each constructor and each derived parser. A parser has one answer to a text (`Answers.unique`), so
whatever these rules derive is what it does.
-/

namespace Descent

namespace Answer

variable {α β : Type} {a : Answer α}

theorem eq_of_outcome_tooDeep {c : Cursor} (h : a.outcome c = .abort .tooDeep) :
    a = .stopped .tooDeep := by
  cases a with
  | took | missed => exact nomatch h
  | stopped e => rw [Outcome.abort.inj h]

theorem behind_ne_tooDeep (s : Text) (h : a ≠ .stopped .tooDeep) :
    a.behind s ≠ .stopped .tooDeep := by
  cases a with
  | took | missed => exact nofun
  | stopped e => exact h

theorem tryMap_ne_tooDeep (f : α → Except Fault β) (h : a ≠ .stopped .tooDeep) :
    a.tryMap f ≠ .stopped .tooDeep := by
  cases a with
  | took v s => cases hv : f v <;> simp [tryMap, hv]
  | missed => simp [tryMap]
  | stopped e => simpa [tryMap] using h

theorem filter_ne_tooDeep (accepts : α → Except Fault Bool) (shown : α → Except Fault Text)
    (description : Text) (h : a ≠ .stopped .tooDeep) :
    a.filter accepts shown description ≠ .stopped .tooDeep := by
  cases a with
  | took v s =>
    rcases hv : accepts v with e | _ | _
    · simp [filter, hv]
    · cases hs : shown v <;> simp [filter, hv, hs]
    · simp [filter, hv]
  | missed => simp [filter]
  | stopped e => simpa [filter] using h

end Answer

namespace Run

variable {α β : Type}

def collect (step : Cursor → Run α) (c : Cursor) : Run (List α) :=
  (foldWhile step (fun vs v => .ok (v :: vs)) [] c).map (·.tryMap fun vs => .ok vs.reverse)

/-- A value can always be put in front of a list. -/
theorem faultAfter_cons (v : α) (n : Nat) (vs : List α) :
    faultAfter (fun vs v => .ok (v :: vs)) v n vs = none :=
  faultAfter_eq_none fun vs => ⟨v :: vs, rfl⟩

/-- Values collected before stand in front of those that follow. -/
theorem map_foldWhile_cons (step : Cursor → Run α) (acc : List α) (c : Cursor) :
    (foldWhile step (fun vs v => .ok (v :: vs)) acc c).map (·.tryMap fun vs => .ok vs.reverse) =
      (collect step c).map (·.tryMap fun vs => .ok (acc.reverse ++ vs)) := by
  induction hn : c.unreadCount using Nat.strongRecOn generalizing acc c with
  | _ n ih =>
    rw [collect, foldWhile_eq, foldWhile_eq step _ []]
    cases (step c).result with
    | failure f => simp [Recorded.map, Outcome.tryMap]
    | abort a => rfl
    | success v d =>
      by_cases hd : d.unreadCount < c.unreadCount
      · have hacc := ih _ (hn ▸ hd) (v :: acc) d rfl
        have hnil := ih _ (hn ▸ hd) [v] d rfl
        simp only [hd, if_true]
        simp only [Recorded.map, Recorded.after, Recorded.mk.injEq] at hacc hnil ⊢
        rw [hacc.1, hacc.2, hnil.1, hnil.2]
        cases (collect step d).result with
        | success vs e => simp [Outcome.tryMap]
        | failure | abort => exact ⟨rfl, rfl⟩
      · simp only [hd, if_false, faultAfter_cons]; rfl

theorem collect_eq (step : Cursor → Run α) (c : Cursor) :
    collect step c = match (step c).result with
      | .failure _ => ⟨.success [] c, (step c).events⟩
      | .abort a => ⟨.abort a, (step c).events⟩
      | .success v d =>
        if d.unreadCount < c.unreadCount then
          ((collect step d).map (·.tryMap fun vs => .ok (v :: vs))).after (step c).events
        else ⟨.abort .endless, (step c).events⟩ := by
  rw [collect, foldWhile_eq]
  cases (step c).result with
  | failure | abort => rfl
  | success v d =>
    by_cases hd : d.unreadCount < c.unreadCount
    · simp only [hd, if_true]
      exact congrArg (Recorded.after _) (map_foldWhile_cons step [v] d)
    · simp [hd, faultAfter_cons, stalled, Run.abort, Recorded.map, Recorded.after, Outcome.tryMap]

namespace Answers

variable {step : Cursor → Run α} {s t : Text} {ns ms : List Text}

theorem collect_missed {message : Text} (h : Answers step t (.missed s message) ns) :
    Answers (Run.collect step) t (.took [] []) ns := by
  refine h.ended (b := .took [] []) List.nil_prefix |>.congr fun c hc => ?_
  rw [Run.collect_eq, h.result c hc]; rfl

theorem collect {v : α} {b : Answer (List α)} (h : Answers step (s ++ t) (.took v s) ns)
    (hs : s ≠ []) (hw : Answers (Run.collect step) t b ms) :
    Answers (Run.collect step) (s ++ t) ((b.tryMap fun vs => .ok (v :: vs)).behind s)
      (ns ++ ms) := by
  refine ((hw.tryMap fun vs => (.ok (v :: vs) : Except Fault (List α))).skip s).after h.notes
    |>.congr fun c hc => ?_
  rw [Run.collect_eq, h.result c hc]
  simp only [Answer.outcome, (Cursor.unreadCount_skip hc).2 hs, if_true]

end Answers

end Run

namespace Parser

variable {ρ : Type → Type} {rules : Rules ρ} {verbose : Bool} {α β γ : Type}

/-- With depth enough, `p` ends as `a` says wherever `t` is left to read. -/
def Answers (rules : Rules ρ) (verbose : Bool) (p : Parser ρ α) (t : Text) (a : Answer α) : Prop :=
  a ≠ .stopped .tooDeep ∧ ∃ n notes, Run.Answers (p.run rules verbose n) t a notes

def Misses (rules : Rules ρ) (verbose : Bool) (p : Parser ρ α) (t : Text) : Prop :=
  ∃ s message, p.Answers rules verbose t (.missed s message)

namespace Answers

variable {p q : Parser ρ α} {s t u : Text} {v : α} {a b : Answer α}

theorem eventually (h : p.Answers rules verbose t a) :
    ∃ n notes, ∀ m, n ≤ m → Run.Answers (p.run rules verbose m) t a notes := by
  rcases h with ⟨hne, n, ns, hn⟩
  refine ⟨n, ns, fun m hnm => hn.congr fun c hc => run_of_le hnm fun hdeep => hne ?_⟩
  exact Answer.eq_of_outcome_tooDeep ((hn.result c hc).symm.trans hdeep)

theorem unique (h : p.Answers rules verbose t a) (h' : p.Answers rules verbose t b) : a = b := by
  obtain ⟨n, ns, hn⟩ := h.eventually
  obtain ⟨m, ms, hm⟩ := h'.eventually
  exact ((hn _ (Nat.le_max_left n m)).unique (hm _ (Nat.le_max_right n m))).1

theorem not_misses (h : p.Answers rules verbose t (.took v s)) : ¬ p.Misses rules verbose t := by
  rintro ⟨s', message, h'⟩
  exact nomatch h.unique h'

theorem prefix_of_took (h : p.Answers rules verbose t (.took v s)) : s <+: t := by
  rcases h with ⟨-, n, ns, hn⟩
  exact hn.within

/-- An answer as a run that a parser reaches. -/
theorem reaches (h : p.Answers rules verbose t a) {c : Cursor} (hc : c.unread = t) :
    ∃ r, p.Reaches rules verbose c r ∧ r.result = a.outcome c := by
  rcases h with ⟨hne, n, ns, hn⟩
  refine ⟨_, ⟨fun hdeep => hne ?_, n, rfl⟩, hn.result c hc⟩
  exact Answer.eq_of_outcome_tooDeep ((hn.result c hc).symm.trans hdeep)

theorem result_of_not_tooDeep (h : p.Answers rules verbose t a) {c : Cursor} (hc : c.unread = t)
    {n : Nat} (hdeep : ¬ (p.run rules verbose n c).TooDeep) :
    (p.run rules verbose n c).result = a.outcome c := by
  obtain ⟨r, hr, hres⟩ := h.reaches hc
  rwa [hr.unique ⟨hdeep, n, rfl⟩] at hres

/-! ### Constructors -/

theorem anyChar_cons (x : CodePoint) (t : Text) :
    (anyChar (ρ := ρ)).Answers rules verbose (x :: t) (.took x [x]) :=
  ⟨nofun, 1, _, Run.Answers.readChar_cons x t⟩

theorem anyChar_nil :
    (anyChar (ρ := ρ)).Answers rules verbose [] (.missed [] "Unexpected end of input") :=
  ⟨nofun, 1, _, Run.Answers.readChar_nil⟩

theorem pure (v : α) (t : Text) :
    (Parser.pure (ρ := ρ) v).Answers rules verbose t (.took v []) :=
  ⟨nofun, 1, _, Run.Answers.const (a := .took v []) List.nil_prefix⟩

theorem bind {k : α → Parser ρ β} {b : Answer β}
    (hp : p.Answers rules verbose (s ++ t) (.took v s)) (hk : (k v).Answers rules verbose t b) :
    (p.bind k).Answers rules verbose (s ++ t) (b.behind s) := by
  obtain ⟨n, ns, hn⟩ := hp.eventually
  obtain ⟨m, ms, hm⟩ := hk.eventually
  exact ⟨Answer.behind_ne_tooDeep s hk.1, max n m + 1, _,
    (hn _ (Nat.le_max_left n m)).andThen (hm _ (Nat.le_max_right n m))⟩

theorem bind_missed {k : α → Parser ρ β} {message : Text}
    (hp : p.Answers rules verbose t (.missed s message)) :
    (p.bind k).Answers rules verbose t (.missed s message) := by
  rcases hp with ⟨-, n, ns, hn⟩
  exact ⟨nofun, n + 1, _, hn.andThen_missed⟩

theorem bind_stopped {k : α → Parser ρ β} {e : Abort}
    (hp : p.Answers rules verbose t (.stopped e)) :
    (p.bind k).Answers rules verbose t (.stopped e) := by
  rcases hp with ⟨hne, n, ns, hn⟩
  exact ⟨fun h => hne (congrArg _ (Answer.stopped.inj h)), n + 1, _, hn.andThen_stopped⟩

theorem tryMap (f : α → Except Fault β) (hp : p.Answers rules verbose t a) :
    (p.tryMap f).Answers rules verbose t (a.tryMap f) := by
  rcases hp with ⟨hne, n, ns, hn⟩
  exact ⟨Answer.tryMap_ne_tooDeep f hne, n + 1, _, hn.tryMap f⟩

theorem filter (accepts : α → Except Fault Bool) (shown : α → Except Fault Text)
    (description : Text) (hp : p.Answers rules verbose t a) :
    (p.filter accepts shown description).Answers rules verbose t
      (a.filter accepts shown description) := by
  rcases hp with ⟨hne, n, ns, hn⟩
  exact ⟨Answer.filter_ne_tooDeep accepts shown description hne, n + 1, _,
    hn.filter accepts shown description⟩

theorem orElse (ha : ∀ s message, a ≠ .missed s message) (hp : p.Answers rules verbose t a) :
    (p.orElse q).Answers rules verbose t a := by
  rcases hp with ⟨hne, n, ns, hn⟩
  exact ⟨hne, n + 1, _, hn.orElse ha⟩

theorem orElse_missed (hp : p.Misses rules verbose t) (hq : q.Answers rules verbose t a) :
    (p.orElse q).Answers rules verbose t a := by
  rcases hp with ⟨s, message, hp⟩
  obtain ⟨n, ns, hn⟩ := hp.eventually
  obtain ⟨m, ms, hm⟩ := hq.eventually
  exact ⟨hq.1, max n m + 1, _,
    (hn _ (Nat.le_max_left n m)).orElse_missed (hm _ (Nat.le_max_right n m))⟩

theorem ref {r : ρ α} (h : (rules _ r).Answers rules verbose t a) :
    (Parser.ref r).Answers rules verbose t a := by
  rcases h with ⟨hne, n, ns, hn⟩
  exact ⟨hne, n + 1, _, hn⟩

/-! ### Choices from lists -/

theorem run_firstOf (ps : List (Parser ρ α)) (n : Nat) (c : Cursor) :
    (Parser.firstOf ps).run rules verbose (n + 1) c = Run.firstOf ⟨c.position, "Empty parser"⟩
      ((ps.map fun p => p.run rules verbose n).map fun f _ => f c) := by
  have hmap := List.ofFn_getElem_eq_map ps fun p (_ : Unit) => p.run rules verbose n c
  rw [List.map_map]
  exact congrArg (Run.firstOf _) hmap

/-- The first parser that does not miss decides, and if all miss then the last one does. -/
theorem firstOf (qs ps : List (Parser ρ α)) (hqs : ∀ q ∈ qs, q.Misses rules verbose t)
    (hp : p.Answers rules verbose t a) (ha : (∀ s message, a ≠ .missed s message) ∨ ps = []) :
    (Parser.firstOf (qs ++ p :: ps)).Answers rules verbose t a := by
  -- Which failure stands when a parser is reached does not matter.
  suffices ∃ n, ∀ m, n ≤ m → ∀ s message, s <+: t → ∃ notes, Run.Answers
      (fun c => Run.firstOf ⟨c.position.updateAll s, message⟩
        (((qs ++ p :: ps).map fun p => p.run rules verbose m).map fun f _ => f c)) t a notes by
    obtain ⟨n, hn⟩ := this
    obtain ⟨ns, h⟩ := hn n (Nat.le_refl n) [] "Empty parser" List.nil_prefix
    exact ⟨hp.1, n + 1, ns, h.congr fun c _ => run_firstOf _ n c⟩
  induction qs with
  | nil =>
    obtain ⟨n, ns, hn⟩ := hp.eventually
    refine ⟨n, fun m hm s message hs => ?_⟩
    cases a with
    | took | stopped => exact ⟨_, (hn m hm).firstOf (by simp)⟩
    | missed s' message' =>
      rcases ha with ha | rfl
      · exact absurd rfl (ha s' message')
      · exact ⟨_, (hn m hm).firstOf_missed (Run.Answers.firstOf_nil (hn m hm).within)⟩
  | cons q qs ih =>
    obtain ⟨s', message', hq⟩ := hqs q List.mem_cons_self
    obtain ⟨n, ns, hn⟩ := hq.eventually
    obtain ⟨k, hk⟩ := ih fun q hq => hqs q (List.mem_cons_of_mem _ hq)
    refine ⟨max n k, fun m hm s message hs => ?_⟩
    have hqm := hn m (Nat.le_trans (Nat.le_max_left n k) hm)
    obtain ⟨ms, h⟩ := hk m (Nat.le_trans (Nat.le_max_right n k) hm) s' message' hqm.within
    exact ⟨_, hqm.firstOf_missed h⟩

/-! ### Repetitions -/

theorem many_missed (h : p.Misses rules verbose t) :
    p.many.Answers rules verbose t (.took [] []) := by
  rcases h with ⟨s, message, -, n, ns, hn⟩
  exact ⟨nofun, n + 1, _, hn.collect_missed⟩

theorem many {vs : List α} (hp : p.Answers rules verbose (s ++ t) (.took v s)) (hs : s ≠ [])
    (hvs : p.many.Answers rules verbose t (.took vs u)) :
    p.many.Answers rules verbose (s ++ t) (.took (v :: vs) (s ++ u)) := by
  obtain ⟨n, ns, hn⟩ := hp.eventually
  obtain ⟨m, ms, hm⟩ := hvs.eventually
  have hrest : Run.Answers (Run.collect (p.run rules verbose (max n m))) t (.took vs u) ms :=
    hm (max n m + 1) (by omega)
  exact ⟨nofun, max n m + 1, _, (hn _ (Nat.le_max_left n m)).collect hs hrest⟩

end Answers

/-- One round of a chain: an operator and its right operand. -/
def chainRound (rules : Rules ρ) (verbose : Bool) (operand : Parser ρ α)
    (operator : Parser ρ (α → α → Except Fault α)) (n : Nat) (c : Cursor) :
    Run ((α → α → Except Fault α) × α) :=
  (operator.run rules verbose n c).andThen fun f d =>
    (operand.run rules verbose n d).map (·.tryMap fun w => .ok (f, w))

/-- What a chain does behind its first operand, from the value `acc` so far. -/
def Continues (rules : Rules ρ) (verbose : Bool) (operand : Parser ρ α)
    (operator : Parser ρ (α → α → Except Fault α)) (acc : α) (t : Text) (a : Answer α) : Prop :=
  a ≠ .stopped .tooDeep ∧ ∃ n notes, ∀ m, n ≤ m → Run.Answers
    (Run.foldWhile (chainRound rules verbose operand operator m) (fun v (f, w) => f v w) acc)
    t a notes

section
variable {operand : Parser ρ α} {operator : Parser ρ (α → α → Except Fault α)}
  {f : α → α → Except Fault α} {acc v w : α} {s u t : Text} {a : Answer α}

/-- A round ends as its operand does, behind the operator. -/
theorem chainRound_answers {b : Answer α}
    (hop : operator.Answers rules verbose (s ++ t) (.took f s))
    (hw : operand.Answers rules verbose t b) :
    ∃ n notes, ∀ m, n ≤ m → Run.Answers (chainRound rules verbose operand operator m) (s ++ t)
      ((b.tryMap fun w => .ok (f, w)).behind s) notes := by
  obtain ⟨n, ns, hn⟩ := hop.eventually
  obtain ⟨k, ks, hk⟩ := hw.eventually
  refine ⟨max n k, ns ++ ks, fun m hm => (hn m (by omega)).andThen ?_⟩
  exact (hk m (by omega)).tryMap fun w => .ok (f, w)

theorem Continues.operator_missed (h : operator.Misses rules verbose t) :
    Continues rules verbose operand operator acc t (.took acc []) := by
  rcases h with ⟨s, message, h⟩
  obtain ⟨n, ns, hn⟩ := h.eventually
  exact ⟨nofun, n, _, fun m hm => (hn m hm).andThen_missed.foldWhile_missed⟩

/-- An operator without an operand is given back. -/
theorem Continues.operand_missed (hop : operator.Answers rules verbose (s ++ t) (.took f s))
    (hw : operand.Misses rules verbose t) :
    Continues rules verbose operand operator acc (s ++ t) (.took acc []) := by
  rcases hw with ⟨s', message, hw⟩
  obtain ⟨n, ns, hn⟩ := chainRound_answers hop hw
  exact ⟨nofun, n, ns, fun m hm => (hn m hm).foldWhile_missed⟩

theorem Continues.next (hop : operator.Answers rules verbose (s ++ (u ++ t)) (.took f s))
    (hs : s ≠ []) (hw : operand.Answers rules verbose (u ++ t) (.took w u))
    (hv : f acc w = .ok v) (h : Continues rules verbose operand operator v t a) :
    Continues rules verbose operand operator acc (s ++ (u ++ t)) (a.behind (s ++ u)) := by
  obtain ⟨n, ns, hn⟩ := chainRound_answers hop hw
  rcases h with ⟨hne, k, ks, hk⟩
  refine ⟨Answer.behind_ne_tooDeep _ hne, max n k, ns ++ ks, fun m hm => ?_⟩
  have hround := hn m (by omega)
  rw [← List.append_assoc] at hround ⊢
  exact hround.foldWhile (by simp [hs]) hv (hk m (by omega))

theorem Answers.chainLeft (hp : operand.Answers rules verbose (s ++ t) (.took v s))
    (h : Continues rules verbose operand operator v t a) :
    (Parser.chainLeft operand operator).Answers rules verbose (s ++ t) (a.behind s) := by
  obtain ⟨n, ns, hn⟩ := hp.eventually
  rcases h with ⟨hne, k, ks, hk⟩
  exact ⟨Answer.behind_ne_tooDeep _ hne, max n k + 1, _,
    (hn _ (Nat.le_max_left n k)).andThen (hk _ (Nat.le_max_right n k))⟩

theorem Answers.chainLeft_stopped {e : Abort} (h : operand.Answers rules verbose t (.stopped e)) :
    (Parser.chainLeft operand operator).Answers rules verbose t (.stopped e) := by
  rcases h with ⟨hne, n, ns, hn⟩
  exact ⟨hne, n + 1, _, hn.andThen_stopped⟩

/-- Behind the first operand a chain never fails. -/
theorem Answers.chainLeft_missed {message : Text}
    (h : operand.Answers rules verbose t (.missed s message)) :
    (Parser.chainLeft operand operator).Answers rules verbose t (.missed s message) := by
  rcases h with ⟨-, n, ns, hn⟩
  exact ⟨nofun, n + 1, _, hn.andThen_missed⟩

theorem Misses.chainLeft (h : operand.Misses rules verbose t) :
    (Parser.chainLeft operand operator).Misses rules verbose t := by
  rcases h with ⟨s, message, h⟩
  exact ⟨s, message, h.chainLeft_missed⟩

end

end Parser
end Descent
