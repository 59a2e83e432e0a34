import Descent.Parser
import Descent.Proofs.Answer

/-!
# Runs depend on the unread text alone

Every parser has an answer to every text (`Parser.uniform_run`): callbacks see values, loops and
alternatives see where a run ended, and `label` compares positions of one text, which differ as far
as their prefixes do. Two things follow. What a run leaves behind lies further on in the same text,
at the position that the characters on the way lead to (`Parser.run_coherent`), and a run takes the
same course wherever its text stands (`Parser.run_translate`).
-/

namespace Descent

namespace Cursor

variable {c : Cursor} {x : CodePoint} {t : Text}

theorem readChar_of_cons (h : c.unread = x :: t) : c.readChar = .success x (c.skip [x]) := by
  have hend : ¬ c.AtEnd := by rw [atEnd_iff_unread_eq_nil, h]; exact List.cons_ne_nil x t
  obtain ⟨hx, hd⟩ := c.current_of_unread h
  rw [readChar, if_neg hend, hx, hd]; rfl

theorem readChar_of_nil (h : c.unread = []) :
    c.readChar = .failure ⟨c.position, "Unexpected end of input"⟩ := by
  rw [readChar, if_pos (c.atEnd_iff_unread_eq_nil.2 h)]

theorem readEnd_of_cons (h : c.unread = x :: t) :
    c.readEnd = .failure ⟨c.position, "Expected end of input, but got " ++ [x]⟩ := by
  have hend : ¬ c.AtEnd := by rw [atEnd_iff_unread_eq_nil, h]; exact List.cons_ne_nil x t
  rw [readEnd, if_neg hend, (c.current_of_unread h).1]

theorem readEnd_of_nil (h : c.unread = []) : c.readEnd = .success () c := by
  rw [readEnd, if_pos (c.atEnd_iff_unread_eq_nil.2 h)]

/-- The characters between the offset of a cursor and a later offset. -/
def slice (c : Cursor) (k : Nat) : Text := c.unread.take (k - c.offset)

theorem slice_of_prefix {s : Text} (hs : s <+: c.unread) : c.slice (c.offset + s.length) = s := by
  rw [slice, Nat.add_sub_cancel_left]
  exact (List.prefix_iff_eq_take.1 hs).symm

theorem slice_prefix (c : Cursor) (k : Nat) : c.slice k <+: c.unread := List.take_prefix _ _

theorem length_slice {k : Nat} (hk : c.offset ≤ k) (hk' : k ≤ max c.offset c.text.size) :
    (c.slice k).length = k - c.offset := by
  rw [slice, List.length_take, length_unread, unreadCount]; omega

theorem add_length_le {s : Text} (hs : s <+: c.unread) :
    c.offset + s.length ≤ max c.offset c.text.size := by
  have := hs.length_le
  rw [length_unread, unreadCount] at this; omega

/-- Positions strictly increase along the slices of a text. -/
theorem before_slice {j k : Nat} (hj : c.offset ≤ j) (hjk : j < k)
    (hk : k ≤ max c.offset c.text.size) :
    (c.position.updateAll (c.slice j)).Before (c.position.updateAll (c.slice k)) := by
  obtain ⟨u, hu⟩ : c.slice j <+: c.slice k := by
    refine List.prefix_of_prefix_length_le (c.slice_prefix j) (c.slice_prefix k) ?_
    rw [length_slice hj (by omega), length_slice (by omega) hk]; omega
  have hne : u ≠ [] := by
    rintro rfl
    have := congrArg List.length hu
    rw [List.append_nil, length_slice hj (by omega), length_slice (by omega) hk] at this
    omega
  rw [← hu, Position.updateAll_append]
  exact Position.before_updateAll _ hne

end Cursor

namespace Run

variable {α β : Type} {f g : Cursor → Run α}

/-- A run that has an answer to every text. -/
def Uniform (f : Cursor → Run α) : Prop := ∀ t, ∃ a notes, Answers f t a notes

theorem Answers.readChar_cons (x : CodePoint) (t : Text) :
    Answers (fun c => ⟨c.readChar, []⟩) (x :: t) (.took x [x]) [] :=
  ⟨⟨t, rfl⟩, fun _ hc => Cursor.readChar_of_cons hc, fun _ _ => rfl⟩

theorem Answers.readChar_nil :
    Answers (fun c => ⟨c.readChar, []⟩) [] (.missed [] "Unexpected end of input") [] :=
  ⟨List.nil_prefix, fun _ hc => Cursor.readChar_of_nil hc, fun _ _ => rfl⟩

theorem Answers.readEnd_cons (x : CodePoint) (t : Text) :
    Answers (fun c => ⟨c.readEnd, []⟩) (x :: t)
      (.missed [] ("Expected end of input, but got " ++ [x])) [] :=
  ⟨List.nil_prefix, fun _ hc => Cursor.readEnd_of_cons hc, fun _ _ => rfl⟩

theorem Answers.readEnd_nil : Answers (fun c => ⟨c.readEnd, []⟩) [] (.took () []) [] :=
  ⟨List.nil_prefix, fun _ hc => Cursor.readEnd_of_nil hc, fun _ _ => rfl⟩

/-- A run that ends at once has the same answer everywhere. -/
theorem Answers.const {a : Answer α} {t : Text} (ha : a.Within t) :
    Answers (fun c => ⟨a.outcome c, []⟩) t a [] :=
  ⟨ha, fun _ _ => rfl, fun _ _ => rfl⟩

namespace Uniform

theorem andThen {k : α → Cursor → Run β} (hf : Uniform f) (hk : ∀ v, Uniform (k v)) :
    Uniform fun c => (f c).andThen k := by
  intro t
  obtain ⟨a, ns, ha⟩ := hf t
  cases a with
  | took v s =>
    obtain ⟨u, rfl⟩ : s <+: t := ha.within
    obtain ⟨b, ms, hb⟩ := hk v u
    exact ⟨_, _, ha.andThen hb⟩
  | missed s message => exact ⟨_, _, ha.andThen_missed⟩
  | stopped e => exact ⟨_, _, ha.andThen_stopped⟩

theorem orElse (hf : Uniform f) (hg : Uniform g) : Uniform fun c => (f c).orElse fun _ => g c := by
  intro t
  obtain ⟨a, ns, ha⟩ := hf t
  obtain ⟨b, ms, hb⟩ := hg t
  cases a with
  | missed s message => exact ⟨_, _, ha.orElse_missed hb⟩
  | took | stopped => exact ⟨_, _, ha.orElse (by simp)⟩

theorem firstOf {fs : List (Cursor → Run α)} (h : ∀ f ∈ fs, Uniform f) {s t : Text} (hs : s <+: t)
    (message : Text) : ∃ a notes, Answers
      (fun c => Run.firstOf ⟨c.position.updateAll s, message⟩ (fs.map fun f _ => f c)) t a notes := by
  -- The last failure moves on from the start, so it has to be any that lies in the text.
  induction fs generalizing s message with
  | nil => exact ⟨_, _, Answers.firstOf_nil hs⟩
  | cons f fs ih =>
    obtain ⟨a, ns, ha⟩ := h f List.mem_cons_self t
    cases a with
    | missed s' message' =>
      obtain ⟨b, ms, hb⟩ := ih (fun f hf => h f (List.mem_cons_of_mem _ hf)) ha.within message'
      exact ⟨_, _, ha.firstOf_missed hb⟩
    | took | stopped => exact ⟨_, _, ha.firstOf (by simp)⟩

theorem foldWhile {step : Cursor → Run β} (h : Uniform step) (combine : α → β → Except Fault α)
    (acc : α) : Uniform (Run.foldWhile step combine acc) := by
  intro t
  -- Every round but the last takes something off what is left to read.
  induction hn : t.length using Nat.strongRecOn generalizing t acc with
  | _ n ih =>
    obtain ⟨a, ns, ha⟩ := h t
    cases a with
    | missed s message => exact ⟨_, _, ha.foldWhile_missed⟩
    | stopped e => exact ⟨_, _, ha.foldWhile_stopped⟩
    | took v s =>
      obtain ⟨u, rfl⟩ : s <+: t := ha.within
      cases hv : combine acc v with
      | error e => exact ⟨_, _, ha.foldWhile_fault hv⟩
      | ok acc' =>
        by_cases hs : s = []
        · subst hs
          cases hf : faultAfter combine v 1 acc' with
          | none => exact ⟨_, _, ha.foldWhile_endless hv hf⟩
          | some r => exact ⟨_, _, ha.foldWhile_stalled hv hf⟩
        · have hu : u.length < n := by
            have := List.length_pos_iff.2 hs
            rw [← hn, List.length_append]; omega
          obtain ⟨b, ms, hb⟩ := ih _ hu acc' u rfl
          exact ⟨_, _, ha.foldWhile hs hv hb⟩

end Uniform
end Run

namespace Parser

variable {ρ : Type → Type} {α : Type}

theorem uniform_run (rules : Rules ρ) (verbose : Bool) (n : Nat) (p : Parser ρ α) :
    Run.Uniform (p.run rules verbose n) := by
  -- The parsers that a constructor holds, and those that callbacks return, run at less depth.
  induction n generalizing α with
  | zero => exact fun t => ⟨_, _, Run.Answers.const (a := .stopped .tooDeep) trivial⟩
  | succ n ih =>
    intro t
    cases p with
    | anyChar =>
      cases t with
      | nil => exact ⟨_, _, Run.Answers.readChar_nil⟩
      | cons x t => exact ⟨_, _, Run.Answers.readChar_cons x t⟩
    | eof =>
      cases t with
      | nil => exact ⟨_, _, Run.Answers.readEnd_nil⟩
      | cons x t => exact ⟨_, _, Run.Answers.readEnd_cons x t⟩
    | pure v => exact ⟨_, _, Run.Answers.const (a := .took v []) List.nil_prefix⟩
    | fail message => exact ⟨_, _, Run.Answers.const (a := .missed [] message) List.nil_prefix⟩
    | throw fault => exact ⟨_, _, Run.Answers.const (a := .stopped (.fault fault)) trivial⟩
    | bind p k => exact (ih p).andThen (fun v => ih (k v)) t
    | tryMap f p =>
      obtain ⟨a, ns, ha⟩ := ih p t
      exact ⟨_, _, ha.tryMap f⟩
    | filter accepts shown description p =>
      obtain ⟨a, ns, ha⟩ := ih p t
      exact ⟨_, _, ha.filter accepts shown description⟩
    | label description p =>
      obtain ⟨a, ns, ha⟩ := ih p t
      exact ⟨_, _, ha.label description⟩
    | orElse p q => exact (ih p).orElse (ih q) t
    | anyOf k ps =>
      have hps : ∀ f ∈ List.ofFn fun i => (ps i).run rules verbose n, Run.Uniform f := by
        intro f hf
        obtain ⟨i, rfl⟩ := List.mem_ofFn.1 hf
        exact ih (ps i)
      obtain ⟨a, ns, ha⟩ := Run.Uniform.firstOf hps (List.nil_prefix (l := t)) "Empty parser"
      refine ⟨a, ns, ha.congr fun c _ => ?_⟩
      rw [List.map_ofFn]; rfl
    | many p =>
      obtain ⟨a, ns, ha⟩ := (ih p).foldWhile (fun vs v => .ok (v :: vs)) [] t
      have hmany := ha.tryMap fun vs => (.ok vs.reverse : Except Fault (List _))
      exact ⟨_, _, hmany⟩
    | chainLeft operand operator =>
      refine (ih operand).andThen (fun v => Run.Uniform.foldWhile ?_ _ v) t
      refine (ih operator).andThen fun f u => ?_
      obtain ⟨a, ns, ha⟩ := ih operand u
      exact ⟨_, _, ha.tryMap fun w => .ok (f, w)⟩
    | trace name shown p =>
      obtain ⟨a, ns, ha⟩ := ih p t
      cases verbose with
      | false => exact ⟨_, _, ha⟩
      | true => exact ⟨_, _, ha.traced name shown⟩
    | delay note p =>
      obtain ⟨a, ns, ha⟩ := ih p t
      have hnote : ∀ c : Cursor, c.unread = t → [Event.built note].filterMap Event.note? = [note] :=
        fun _ _ => rfl
      exact ⟨_, _, ha.after hnote⟩
    | ref r => exact ih (rules _ r) t

/-- A run that succeeds ends further on in the same text, at the position behind what it consumed;
one that fails does so at the position behind exactly one prefix of what it had to read. -/
theorem run_coherent (rules : Rules ρ) (verbose : Bool) (n : Nat) (p : Parser ρ α) (c : Cursor) :
    (match (p.run rules verbose n c).result with
    | .success _ d =>
      d.text = c.text ∧ c.offset ≤ d.offset ∧ d.offset ≤ max c.offset c.text.size ∧
      d.position = c.position.updateAll (c.slice d.offset) ∧
      d.position.name = c.position.name ∧
      d.position.line = c.position.line + (c.slice d.offset).count ('\n' : CodePoint) ∧
      d.position.column =
        if ('\n' : CodePoint) ∈ c.slice d.offset then
          1 + (((c.slice d.offset).reverse.takeWhile fun x : CodePoint => x ≠ '\n').length : Int)
        else c.position.column + (d.offset - c.offset : Int)
    | .failure f =>
      ∃! k, c.offset ≤ k ∧ k ≤ max c.offset c.text.size ∧
        f.position = c.position.updateAll (c.slice k)
    | .abort _ => True) ∧
    ∀ j k, c.offset ≤ j → j < k → k ≤ max c.offset c.text.size →
      (c.position.updateAll (c.slice j)).Before (c.position.updateAll (c.slice k)) := by
  refine ⟨?_, fun j k hj hjk hk => Cursor.before_slice hj hjk hk⟩
  obtain ⟨a, ns, ha⟩ := p.uniform_run rules verbose n c.unread
  rw [ha.result c rfl]
  cases a with
  | took v s =>
    have hs : s <+: c.unread := ha.within
    have hslice : c.slice (c.skip s).offset = s := Cursor.slice_of_prefix hs
    refine ⟨rfl, Nat.le_add_right .., Cursor.add_length_le hs, ?_, Position.name_updateAll .., ?_, ?_⟩
    · rw [hslice]; rfl
    · rw [hslice]; exact Position.line_updateAll ..
    · rw [hslice, show (c.skip s).position = c.position.updateAll s from rfl,
        Position.column_updateAll]
      split
      · rfl
      · rw [show (c.skip s).offset = c.offset + s.length from rfl]; push_cast; omega
  | missed s message =>
    have hs : s <+: c.unread := ha.within
    refine ⟨c.offset + s.length, ⟨Nat.le_add_right .., Cursor.add_length_le hs, ?_⟩, ?_⟩
    · rw [Cursor.slice_of_prefix hs]
    · rintro k ⟨hk, hk', hpos⟩
      have heq : s = c.slice k := Position.updateAll_inj hs (c.slice_prefix k) hpos
      rw [heq, Cursor.length_slice hk hk']; omega
  | stopped e => trivial

/-- Two runs in front of one text, the first behind any other text, the two at any positions: they
take the same course. -/
theorem run_translate (rules : Rules ρ) (verbose : Bool) (n : Nat) (p : Parser ρ α)
    (before text : Text) (pos pos' : Position) :
    let r := p.run rules verbose n ⟨(before ++ text).toArray, before.length, pos⟩
    let r' := p.run rules verbose n ⟨text.toArray, 0, pos'⟩
    r.notes = r'.notes ∧
    match r.result, r'.result with
    | .success v d, .success v' d' =>
      v = v' ∧ d.offset = before.length + d'.offset ∧
      d.position = pos.updateAll (text.take d'.offset) ∧
      d'.position = pos'.updateAll (text.take d'.offset)
    | .failure f, .failure f' =>
      f.message = f'.message ∧ ∃ k, k ≤ text.length ∧
        f.position = pos.updateAll (text.take k) ∧ f'.position = pos'.updateAll (text.take k)
    | .abort e, .abort e' => e = e'
    | _, _ => False := by
  intro r r'
  have hc : (⟨(before ++ text).toArray, before.length, pos⟩ : Cursor).unread = text :=
    List.drop_left
  have hc' : (⟨text.toArray, 0, pos'⟩ : Cursor).unread = text := rfl
  obtain ⟨a, ns, ha⟩ := p.uniform_run rules verbose n text
  refine ⟨(ha.notes _ hc).trans (ha.notes _ hc').symm, ?_⟩
  rw [show r.result = _ from ha.result _ hc, show r'.result = _ from ha.result _ hc']
  cases a with
  | took v s =>
    have hs : text.take s.length = s := (List.prefix_iff_eq_take.1 ha.within).symm
    refine ⟨rfl, ?_, ?_, ?_⟩
    · show before.length + s.length = before.length + (0 + s.length)
      omega
    · show pos.updateAll s = pos.updateAll (text.take (0 + s.length))
      rw [Nat.zero_add, hs]
    · show pos'.updateAll s = pos'.updateAll (text.take (0 + s.length))
      rw [Nat.zero_add, hs]
  | missed s message =>
    have hs : text.take s.length = s := (List.prefix_iff_eq_take.1 ha.within).symm
    refine ⟨rfl, s.length, ha.within.length_le, ?_, ?_⟩
    · rw [hs]
    · rw [hs]
  | stopped e => rfl

end Parser
end Descent
