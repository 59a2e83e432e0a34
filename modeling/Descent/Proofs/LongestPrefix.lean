import Descent.Parser.Reading
import Descent.Proofs.Recognition

/-!
# Longest prefixes

A parser recognises a language exactly if it takes the longest prefix of its text that is in the
language, and fails only if there is none. `p.ReadsLongest` says so of answers; it follows from
soundness, `p.Reads`, and from a comparison of what `p` takes with every prefix in the language.
-/

namespace Descent

section
variable {α : Type}

/-- `s` is the longest prefix of `t` in `L`, and `v` is its one meaning. -/
structure IsLongest (L : Text → α → Prop) (t s : Text) (v : α) : Prop where
  within : s <+: t
  meaning : ∀ w, L s w ↔ w = v
  longest : ∀ r w, r <+: t → L r w → r <+: s

theorem IsLongest.unique {L : Text → α → Prop} {t s s' : Text} {v v' : α}
    (h : IsLongest L t s v) (h' : IsLongest L t s' v') : s = s' ∧ v = v' := by
  have hs : s <+: s' := h'.longest s v h.within ((h.meaning v).2 rfl)
  have hs' : s' <+: s := h.longest s' v' h'.within ((h'.meaning v').2 rfl)
  obtain rfl := hs.eq_of_length_le hs'.length_le
  exact ⟨rfl, (h'.meaning v).1 ((h.meaning v).2 rfl)⟩

/-- How a parser that recognises `L` ends at a cursor. -/
structure Outcome.Recognises (L : Text → α → Prop) (c : Cursor) (o : Outcome α) : Prop where
  success_iff : (∃ v d, o = .success v d) ↔ ∃ s v, s <+: c.unread ∧ L s v
  failure_iff : (∃ f, o = .failure f) ↔ ∀ s v, s <+: c.unread → ¬ L s v
  longest : ∀ v d, o = .success v d → ∃ s, d = c.skip s ∧ IsLongest L c.unread s v

theorem Outcome.Recognises.ne_abort {L : Text → α → Prop} {c : Cursor} {o : Outcome α}
    (h : o.Recognises L c) (a : Abort) : o ≠ .abort a := by
  rintro rfl
  by_cases hword : ∃ s v, s <+: c.unread ∧ L s v
  · obtain ⟨v, d, hv⟩ := h.success_iff.2 hword
    exact nomatch hv
  · obtain ⟨f, hf⟩ := h.failure_iff.2 fun s v hs hL => hword ⟨s, v, hs, hL⟩
    exact nomatch hf

end

namespace Parser

variable {ρ : Type → Type} {rules : Rules ρ} {verbose : Bool} {α : Type} {L : Text → α → Prop}
  {p : Parser ρ α} {t : Text}

inductive ReadsLongest (rules : Rules ρ) (verbose : Bool) (L : Text → α → Prop) (p : Parser ρ α)
    (t : Text) : Prop where
  | took {v : α} {s : Text} (hs : IsLongest L t s v) (h : p.Answers rules verbose t (.took v s))
  | missed (hnone : ∀ s v, s <+: t → ¬ L s v) (h : p.Misses rules verbose t)

/-- Where `t` starts with a word of `L`, that word or a longer text is taken, and a longer one only
if a character of `C` follows the word. -/
def Covers (rules : Rules ρ) (verbose : Bool) (L : Text → α → Prop) (C : CodePoint → Bool)
    (p : Parser ρ α) (t : Text) : Prop :=
  ∀ s u v, t = s ++ u → L s v → ∃ w r, p.Answers rules verbose t (.took w r) ∧ s <+: r ∧
    (r = s → w = v) ∧ (Stops C u → r = s)

section
variable {C : CodePoint → Bool} {s u : Text} {v : α}

/-- A word is taken where what follows it excludes a longer one. -/
theorem Covers.answers (h : p.Covers rules verbose L C (s ++ u)) (hL : L s v) (hu : Stops C u) :
    p.Answers rules verbose (s ++ u) (.took v s) := by
  obtain ⟨w, r, hr, -, hw, hC⟩ := h s u v rfl hL
  obtain rfl := hC hu
  rwa [hw rfl] at hr

theorem Answers.covers (h : p.Answers rules verbose t (.took v s)) :
    ∃ w r, p.Answers rules verbose t (.took w r) ∧ s <+: r ∧ (r = s → w = v) ∧
      (Stops C u → r = s) :=
  ⟨v, s, h, List.prefix_rfl, fun _ => rfl, fun _ => rfl⟩

theorem Covers.ref {r : ρ α} (h : (rules _ r).Covers rules verbose L C t) :
    (Parser.ref r).Covers rules verbose L C t := by
  intro s u v ht hL
  obtain ⟨w, r, hr, hrest⟩ := h s u v ht hL
  exact ⟨w, r, hr.ref, hrest⟩

/-- A word with whitespace behind it, against what is taken for the word and all whitespace behind
that. Whitespace does not go on with a word. -/
theorem cover_blank (hC : ∀ c ∈ blanks, C c = false) {r w b z : Text} (hw : AreBlank w)
    (hb : AreBlank b) (hz : Stops (· ∈ blanks) z) (htext : r ++ (b ++ z) = s ++ (w ++ u))
    (hsr : s <+: r) (hends : Stops C (w ++ u) → r = s) :
    s ++ w <+: r ++ b ∧ (r ++ b = s ++ w → r = s) ∧
      (Stops (fun c => C c || decide (c ∈ blanks)) u → r ++ b = s ++ w) := by
  by_cases hrs : r = s
  · subst hrs
    have hrest : w ++ u = b ++ z := (List.append_cancel_left htext).symm
    have hw' : ∀ c ∈ w, decide (c ∈ blanks) = true := fun c hc => decide_eq_true (hw c hc)
    have hb' : ∀ c ∈ b, decide (c ∈ blanks) = true := fun c hc => decide_eq_true (hb c hc)
    refine ⟨?_, fun _ => rfl, fun hu => ?_⟩
    · rw [List.prefix_append_right_inj]
      exact Stops.prefix_of_append_eq hw' hz hrest
    · have hu' : Stops (· ∈ blanks) u := fun c hc => (Bool.or_eq_false_iff.1 (hu c hc)).2
      rw [(Stops.append_inj hw' hb' hu' hz hrest.symm).1]
  · have hnil : w = [] := by
      cases w with
      | nil => rfl
      | cons d w =>
        have hd : C d = false := hC d (hw d List.mem_cons_self)
        exact absurd (hends (Stops.cons_iff.2 hd)) hrs
    subst hnil
    refine ⟨?_, fun heq => ?_, fun hu => ?_⟩
    · rw [List.append_nil]
      exact hsr.trans (List.prefix_append r b)
    · have hlen := congrArg List.length heq
      simp only [List.length_append, List.length_nil] at hlen
      exact (hsr.eq_of_length_le (by omega)).symm
    · have hu' : Stops C u := fun c hc => (Bool.or_eq_false_iff.1 (hu c hc)).1
      exact absurd (hends hu') hrs

end

/-- A sound parser takes the longest prefix if it takes no less than any prefix in the language. -/
theorem Reads.longest {C : CodePoint → Bool} (h : p.Reads rules verbose L t)
    (hcover : p.Covers rules verbose L C t) : p.ReadsLongest rules verbose L t := by
  cases h with
  | missed h =>
    refine .missed (fun s v hs hL => ?_) h
    rcases hs with ⟨u, hu⟩
    obtain ⟨w, r, hr, -⟩ := hcover s u v hu.symm hL
    exact hr.not_misses h
  | @took v s u ht hL h =>
    have hlongest : ∀ r w, r <+: t → L r w → r <+: s ∧ (s = r → v = w) := by
      rintro r w ⟨x, hx⟩ hLw
      obtain ⟨v', s', h', hr, hv, -⟩ := hcover r x w hx.symm hLw
      cases h'.unique h
      exact ⟨hr, hv⟩
    refine .took ⟨⟨u, ht.symm⟩, fun w => ⟨fun hw => ?_, ?_⟩, fun r w hr hw => ?_⟩ h
    · exact ((hlongest s w ⟨u, ht.symm⟩ hw).2 rfl).symm
    · rintro rfl; exact hL
    · exact (hlongest r w hr hw).1

theorem ReadsLongest.reaches (h : p.ReadsLongest rules verbose L t) {c : Cursor}
    (hc : c.unread = t) : ∃ r, p.Reaches rules verbose c r ∧ r.result.Recognises L c := by
  subst hc
  cases h with
  | @took v s hs h =>
    obtain ⟨r, hr, hres⟩ := h.reaches rfl
    refine ⟨r, hr, ?_⟩
    rw [hres]
    refine ⟨⟨fun _ => ⟨s, v, hs.within, (hs.meaning v).2 rfl⟩, fun _ => ⟨v, c.skip s, rfl⟩⟩,
      ⟨nofun, fun hnone => absurd ((hs.meaning v).2 rfl) (hnone s v hs.within)⟩, ?_⟩
    rintro _ _ ⟨⟩
    exact ⟨s, rfl, hs⟩
  | missed hnone h =>
    rcases h with ⟨s, message, h⟩
    obtain ⟨r, hr, hres⟩ := h.reaches rfl
    refine ⟨r, hr, ?_⟩
    rw [hres]
    refine ⟨⟨nofun, ?_⟩, ⟨fun _ => hnone, fun _ => ⟨_, rfl⟩⟩, nofun⟩
    rintro ⟨s', v, hs', hL⟩
    exact absurd hL (hnone s' v hs')

/-! ### Separated words -/

/-- A separator with a word behind it can be repeated wherever words are read. -/
theorem Reads.separated_many {c : CodePoint}
    (hp : ∀ r x, t = r ++ x → p.Reads rules verbose L x) :
    ∃ vs s, ((Parser.char c).keepRight p).many.Answers rules verbose t (.took vs s) := by
  have hround : ∀ s u, t = s ++ u → ((Parser.char c).keepRight p).Reads rules verbose
      (fun r x => ∃ r', r = c :: r' ∧ L r' x) u := fun s u ht =>
    Reads.separated fun r x hu => hp (s ++ r) x (by rw [ht, hu, List.append_assoc])
  obtain ⟨vs, s, -, -, -, h⟩ := Reads.many_took (K := fun _ _ => True) trivial
    (fun _ _ _ _ _ _ _ _ => trivial) (fun _ _ ⟨r, hr, _⟩ => hr ▸ List.cons_ne_nil c r) hround
  exact ⟨vs, s, h⟩

/-- Where a text starts with separated words, these or a longer list is taken: the separator does
not go on with a word, so each word in front of one is taken as it is. -/
theorem SepBy.taken {C : CodePoint → Bool} {c : CodePoint} {s u : Text} {vs : List α}
    (h : SepBy L c s vs) (hC : C c = false)
    (hreads : ∀ r x, s ++ u = r ++ x → p.Reads rules verbose L x)
    (hcovers : ∀ r x, s ++ u = r ++ x → p.Covers rules verbose L C x) :
    ∃ ws r, (p.sepBySome (Parser.char c)).Answers rules verbose (s ++ u) (.took ws r) ∧
      s <+: r := by
  suffices ∃ v r x ws y, s ++ u = r ++ x ∧ p.Answers rules verbose (r ++ x) (.took v r) ∧
      ((Parser.char c).keepRight p).many.Answers rules verbose x (.took ws y) ∧ s <+: r ++ y by
    obtain ⟨v, r, x, ws, y, htext, hr, hrest, hs⟩ := this
    exact ⟨v :: ws, r ++ y, htext ▸ hr.sepBySome hrest, hs⟩
  induction h with
  | @one s v h =>
    obtain ⟨w, r, hr, hsr, -⟩ := hcovers [] (s ++ u) rfl s u v rfl h
    obtain ⟨x, hx⟩ := hr.prefix_of_took
    rw [← hx] at hr hreads
    obtain ⟨ws, y, hrest⟩ := Reads.separated_many (c := c) (t := x) fun b z hz =>
      hreads (r ++ b) z (by rw [hz, List.append_assoc])
    exact ⟨w, r, x, ws, y, hx.symm, hr, hrest, hsr.trans (List.prefix_append r y)⟩
  | @cons s s' v vs h hs ih =>
    have htext : s ++ c :: s' ++ u = s ++ (c :: (s' ++ u)) := by simp
    rw [htext] at hreads hcovers
    have hword := (hcovers [] (s ++ c :: (s' ++ u)) rfl).answers h (Stops.cons_iff.2 hC)
    obtain ⟨w, r, x, ws, y, hx, hr, hrest, hsr⟩ := ih
      (fun b z hz => hreads (s ++ c :: b) z (by rw [hz]; simp))
      fun b z hz => hcovers (s ++ c :: b) z (by rw [hz]; simp)
    rw [hx] at hword htext
    have hround := (Answers.char c (r ++ x)).keepRight (s := [c]) hr
    refine ⟨v, s, _, w :: ws, c :: r ++ y, htext, hword,
      hround.many (s := c :: r) (List.cons_ne_nil c r) hrest, ?_⟩
    exact (List.prefix_append_right_inj s).2 (List.prefix_cons_inj c |>.2 hsr)

/-! ### Whole texts -/

section
variable {name : Text} {v : α} {s u : Text}

theorem Answers.attempt {a : Answer α} (h : p.Answers rules verbose t a) (ha : ∀ e, a ≠ .stopped e)
    (hdeep : ¬ (p.parse rules verbose (.start t name)).TooDeep) :
    (p.attempt rules verbose (.start t name)).result = a.outcome (.start t name) := by
  have hparse : (p.parse rules verbose (.start t name)).result = a.outcome (.start t name) :=
    h.result_of_not_tooDeep (Cursor.unread_start t name) hdeep
  cases a with
  | took v s => simp [Parser.attempt, hparse, Answer.outcome]
  | missed s message => simp [Parser.attempt, hparse, Answer.outcome]
  | stopped e => exact absurd rfl (ha e)

theorem Misses.readText (h : p.Misses rules verbose t)
    (hdeep : ¬ (p.parse rules verbose (.start t name)).TooDeep) :
    ∃ f, (p.readText rules verbose t name true).result = .error (.failure f) := by
  rcases h with ⟨s, message, h⟩
  simp [Parser.readText, h.attempt (by simp) hdeep, Answer.outcome]

theorem Answers.readText (h : p.Answers rules verbose t (.took v t))
    (hdeep : ¬ (p.parse rules verbose (.start t name)).TooDeep) :
    (p.readText rules verbose t name true).result = .ok v := by
  have hend : ((Cursor.start t name).skip t).AtEnd := by
    rw [Cursor.atEnd_iff_unread_eq_nil]
    refine Cursor.unread_skip ?_
    rw [Cursor.unread_start, List.append_nil]
  simp [Parser.readText, h.attempt (by simp) hdeep, Answer.outcome, hend]

theorem Answers.readText_part (h : p.Answers rules verbose t (.took v s)) (ht : t = s ++ u)
    (hu : u ≠ []) (hdeep : ¬ (p.parse rules verbose (.start t name)).TooDeep) :
    ∃ f, (p.readText rules verbose t name true).result = .error (.failure f) := by
  obtain ⟨x, u, rfl⟩ := List.exists_cons_of_ne_nil hu
  have hskip : ((Cursor.start t name).skip s).unread = x :: u :=
    Cursor.unread_skip ((Cursor.unread_start t name).trans ht)
  have hend : ¬ ((Cursor.start t name).skip s).AtEnd := by
    rw [Cursor.atEnd_iff_unread_eq_nil, hskip]
    exact List.cons_ne_nil x u
  simp [Parser.readText, h.attempt (by simp) hdeep, Answer.outcome, hend,
    (Cursor.current_of_unread _ hskip).1]

/-- Reading a whole text gives the meaning of the text, and fails if the text is not in the
language. -/
theorem ReadsLongest.readText (h : p.ReadsLongest rules verbose L t)
    (hdeep : ¬ (p.parse rules verbose (.start t name)).TooDeep) :
    (∀ v, (p.readText rules verbose t name true).result = .ok v ↔ L t v) ∧
      ((∃ f, (p.readText rules verbose t name true).result = .error (.failure f)) ↔
        ∀ v, ¬ L t v) := by
  cases h with
  | missed hnone h =>
    obtain ⟨f, hf⟩ := h.readText hdeep
    have hnot : ∀ v, ¬ L t v := fun v => hnone t v List.prefix_rfl
    simp [hf, hnot]
  | @took v s hs h =>
    obtain ⟨u, rfl⟩ := hs.within
    by_cases hu : u = []
    · subst hu
      rw [List.append_nil] at h hs hdeep ⊢
      simp [h.readText hdeep, hs.meaning, eq_comm]
    · obtain ⟨f, hf⟩ := h.readText_part rfl hu hdeep
      -- The whole text would be longer than what is taken.
      have hnot : ∀ w, ¬ L (s ++ u) w := by
        intro w hw
        have hlen := (hs.longest _ w List.prefix_rfl hw).length_le
        have hpos := List.length_pos_iff.2 hu
        rw [List.length_append] at hlen
        omega
      simp [hf, hnot]

end

/-- What a parser that recognises `L` does with a text: given depth enough, and given the depth that
readings have. -/
theorem ReadsLongest.recognises (h : p.ReadsLongest rules verbose L t) (name : Text) :
    ∃ r, p.Reaches rules verbose (.start t name) r ∧
      r.result.Recognises L (.start t name) ∧
      (¬ (p.parse rules verbose (.start t name)).TooDeep →
        p.parse rules verbose (.start t name) = r ∧
        (∀ v, (p.readText rules verbose t name true).result = .ok v ↔ L t v) ∧
        ((∃ f, (p.readText rules verbose t name true).result = .error (.failure f)) ↔
          ∀ v, ¬ L t v)) := by
  obtain ⟨r, hr, hrec⟩ := h.reaches (Cursor.unread_start t name)
  refine ⟨r, hr, hrec, fun hdeep => ⟨?_, h.readText hdeep⟩⟩
  have hparse : p.Reaches rules verbose (.start t name) (p.parse rules verbose (.start t name)) :=
    ⟨hdeep, nestingLimit, rfl⟩
  exact hparse.unique hr

end Parser
end Descent
