import Descent.Parser.Sequence
import Descent.Proofs.Settling
import Descent.Proofs.Tracing
import Descent.Proofs.Agreement

/-!
# Choices in all their forms

A choice tries its parsers in order, each from where the choice starts, up to the first one that
does not fail, and ends as the last of them does (`Parser.Tries`, `Parser.firstOf_reaches_iff`). A
list of parsers, alternatives of two that are nested to the left or to the right, and choices from
parsers that are built when their turn comes are all the same choice (`Parser.choices_agree`). The
latter leave notes, which tell what was built: just the parsers that were tried.
-/

namespace Descent

namespace Run

variable {α : Type}

theorem after_orElse (es : List Event) (r : Run α) (q : Unit → Run α) :
    orElse (r.after es) q = (r.orElse q).after es := by
  rcases r with ⟨o, fs⟩
  cases o with
  | failure f => simp [orElse, Recorded.after]
  | success | abort => rfl

theorem orElse_assoc (r : Run α) (q s : Unit → Run α) :
    (r.orElse q).orElse s = r.orElse fun _ => (q ()).orElse s := by
  rcases r with ⟨o, es⟩
  cases o with
  | failure f => exact after_orElse es (q ()) s
  | success | abort => rfl

/-- Behind the first alternative the failure that was there before does not count. -/
theorem firstOf_cons_cons (last last' : Failure) (a b : Unit → Run α) (as : List (Unit → Run α)) :
    firstOf last (a :: b :: as) = (a ()).orElse fun _ => firstOf last' (b :: as) := by
  simp only [firstOf, orElse]

theorem firstOf_singleton (last : Failure) (a : Unit → Run α) : firstOf last [a] = a () := by
  simp only [firstOf]
  split
  · next f hf =>
    simp only [failure, Recorded.after, List.append_nil, ← hf]
  · rfl

end Run

namespace Parser

variable {ρ : Type → Type} {rules : Rules ρ} {verbose : Bool} {α : Type} {c : Cursor}

/-! ### One choice after another -/

theorem matches_firstOf (ps : List (Parser ρ α)) (c : Cursor) :
    Run.Matches ((firstOf ps).run rules verbose · c) fun n =>
      Run.firstOf ⟨c.position, "Empty parser"⟩
        ((ps.map fun p => p.run rules verbose n).map fun f _ => f c) := by
  have h : Run.Matches ((firstOf ps).run rules verbose · c) _ := matches_succ (firstOf ps) c
  simp only [Answers.run_firstOf] at h
  exact h

theorem matches_empty (c : Cursor) :
    Run.Matches ((empty : Parser ρ α).run rules verbose · c)
      fun _ => .failure ⟨c.position, "Empty parser"⟩ :=
  matches_succ _ c

namespace Agree

variable {p p' q q' s : Parser ρ α} {ps qs : List (Parser ρ α)}

theorem orElse (hp : Agree rules verbose p p') (hq : Agree rules verbose q q') :
    Agree rules verbose (p.orElse q) (p'.orElse q') :=
  fun c => (hp c).orElse (hq c)

theorem orElse_assoc (p q s : Parser ρ α) :
    Agree rules verbose ((p.orElse q).orElse s) (p.orElse (q.orElse s)) := by
  intro c
  rw [agreeAt_iff_matches]
  have hleft : Run.Matches (((p.orElse q).orElse s).run rules verbose · c) _ :=
    (matches_orElse (p.orElse q) s c).trans
      ((matches_orElse p q c).orElse fun _ => matches_refl s c)
  have hright : Run.Matches ((p.orElse (q.orElse s)).run rules verbose · c) _ :=
    (matches_orElse p (q.orElse s) c).trans
      ((matches_refl p c).orElse fun _ => matches_orElse q s c)
  simp only [Run.orElse_assoc] at hleft
  exact hleft.trans hright.symm

theorem firstOf_nil : Agree rules verbose (Parser.firstOf []) (empty : Parser ρ α) := by
  intro c
  rw [agreeAt_iff_matches]
  exact (matches_firstOf [] c).trans (matches_empty c).symm

theorem empty_orElse (p : Parser ρ α) : Agree rules verbose (empty.orElse p) p := by
  intro c
  rw [agreeAt_iff_matches]
  exact (matches_orElse empty p c).trans
    ((matches_empty c).orElse fun _ => matches_refl p c)

theorem firstOf_singleton (p : Parser ρ α) : Agree rules verbose (Parser.firstOf [p]) p := by
  intro c
  rw [agreeAt_iff_matches]
  have h : Run.Matches ((Parser.firstOf [p]).run rules verbose · c) _ := matches_firstOf [p] c
  simp only [List.map_cons, List.map_nil, Run.firstOf_singleton] at h
  exact h

theorem firstOf_cons (p : Parser ρ α) (hps : ps ≠ []) :
    Agree rules verbose (Parser.firstOf (p :: ps)) (p.orElse (Parser.firstOf ps)) := by
  intro c
  rw [agreeAt_iff_matches]
  obtain ⟨q, ps, rfl⟩ := List.exists_cons_of_ne_nil hps
  have hleft : Run.Matches ((Parser.firstOf (p :: q :: ps)).run rules verbose · c) _ :=
    matches_firstOf (p :: q :: ps) c
  have hright : Run.Matches ((p.orElse (Parser.firstOf (q :: ps))).run rules verbose · c) _ :=
    (matches_orElse p _ c).trans ((matches_refl p c).orElse fun _ => matches_firstOf (q :: ps) c)
  simp only [List.map_cons, Run.firstOf_cons_cons _ ⟨c.position, "Empty parser"⟩] at hleft hright
  exact hleft.trans hright.symm

/-- A choice can be cut into two wherever there is a parser left to choose. -/
theorem firstOf_append (ps : List (Parser ρ α)) (hqs : qs ≠ []) :
    Agree rules verbose (Parser.firstOf (ps ++ qs))
      ((Parser.firstOf ps).orElse (Parser.firstOf qs)) := by
  induction ps with
  | nil => exact (empty_orElse _).symm.trans (firstOf_nil.symm.orElse (.refl _))
  | cons p ps ih =>
    refine (firstOf_cons p (by simp [hqs])).trans ?_
    by_cases hps : ps = []
    · subst hps
      exact (firstOf_singleton p).symm.orElse (.refl _)
    · refine ((Agree.refl p).orElse ih).trans ((orElse_assoc p _ _).symm.trans ?_)
      exact (firstOf_cons p hps).symm.orElse (.refl _)

theorem foldl_orElse (p : Parser ρ α) (ps : List (Parser ρ α)) :
    Agree rules verbose (ps.foldl Parser.orElse p) (Parser.firstOf (p :: ps)) := by
  induction ps using List.reverseRecOn with
  | nil => exact (firstOf_singleton p).symm
  | append_singleton ps q ih =>
    rw [List.foldl_concat]
    refine (ih.orElse (firstOf_singleton q).symm).trans ?_
    exact (firstOf_append (p :: ps) (List.cons_ne_nil q [])).symm

theorem foldr_orElse (ps : List (Parser ρ α)) (q : Parser ρ α) :
    Agree rules verbose (ps.foldr Parser.orElse q) (Parser.firstOf (ps ++ [q])) := by
  induction ps with
  | nil => exact (firstOf_singleton q).symm
  | cons p ps ih =>
    exact ((Agree.refl p).orElse ih).trans (firstOf_cons p (by simp)).symm

end Agree

/-! ### What a choice tries -/

theorem Reaches.eventually {p : Parser ρ α} {r : Run α} (h : p.Reaches rules verbose c r) :
    ∃ m, ∀ n, m ≤ n → p.run rules verbose n c = r := by
  obtain ⟨hdeep, m, rfl⟩ := h
  exact ⟨m, fun n hmn => run_of_le hmn hdeep⟩

theorem orElse_reaches_iff {p q : Parser ρ α} {r : Run α} :
    (p.orElse q).Reaches rules verbose c r ↔
      ((∀ f, r.result ≠ .failure f) ∧ p.Reaches rules verbose c r) ∨
        ∃ f s t, p.Reaches rules verbose c s ∧ s.result = .failure f ∧
          q.Reaches rules verbose c t ∧ r = t.after s.events := by
  constructor
  · rintro ⟨hdeep, _ | n, rfl⟩
    · exact absurd rfl hdeep
    · simp only [run, Run.orElse] at hdeep ⊢
      split at hdeep
      · next f hf =>
        refine .inr ⟨f, p.run rules verbose n c, q.run rules verbose n c, ⟨fun h => ?_, n, rfl⟩, hf,
          ⟨hdeep, n, rfl⟩, rfl⟩
        exact absurd (hf.symm.trans h) (by simp)
      · next hf => exact .inl ⟨hf, hdeep, n, rfl⟩
  · rintro (⟨hf, hdeep, n, rfl⟩ | ⟨f, s, t, hs, hf, ht, rfl⟩)
    · refine ⟨hdeep, n + 1, ?_⟩
      simp only [run, Run.orElse]
    · obtain ⟨n, hn⟩ := hs.eventually
      obtain ⟨m, hm⟩ := ht.eventually
      refine ⟨ht.1, max n m + 1, ?_⟩
      simp only [run, Run.orElse, hn _ (Nat.le_max_left n m), hf, hm _ (Nat.le_max_right n m)]

theorem delay_reaches_iff {p : Parser ρ α} {note : Text} {r : Run α} :
    (delay note p).Reaches rules verbose c r ↔
      ∃ s, p.Reaches rules verbose c s ∧ r = s.after [.built note] := by
  constructor
  · rintro ⟨hdeep, _ | n, rfl⟩
    · exact absurd rfl hdeep
    · exact ⟨p.run rules verbose n c, ⟨hdeep, n, rfl⟩, rfl⟩
  · rintro ⟨s, ⟨hdeep, n, hn⟩, rfl⟩
    exact ⟨hdeep, n + 1, by simp only [run, hn]⟩

/-- The runs of the parsers that are tried at `c`, of which only the last one may have come to
anything but a failure. -/
inductive Tries (rules : Rules ρ) (verbose : Bool) (c : Cursor) :
    List (Parser ρ α) → List (Run α) → Prop where
  | nil : Tries rules verbose c [] []
  | last {p : Parser ρ α} {r : Run α} (hr : p.Reaches rules verbose c r)
      (hf : ∀ f, r.result ≠ .failure f) (ps : List (Parser ρ α)) :
      Tries rules verbose c (p :: ps) [r]
  | next {p : Parser ρ α} {ps : List (Parser ρ α)} {f : Failure} {r : Run α} {rs : List (Run α)}
      (hr : p.Reaches rules verbose c r) (hf : r.result = .failure f)
      (h : Tries rules verbose c ps rs) : Tries rules verbose c (p :: ps) (r :: rs)

namespace Tries

variable {ps : List (Parser ρ α)} {rs : List (Run α)}

theorem singleton_iff {p : Parser ρ α} :
    Tries rules verbose c [p] rs ↔ ∃ r, p.Reaches rules verbose c r ∧ rs = [r] := by
  constructor
  · rintro (_ | ⟨hr, -, -⟩ | ⟨hr, -, ⟨⟩⟩)
    · exact ⟨_, hr, rfl⟩
    · exact ⟨_, hr, rfl⟩
  · rintro ⟨r, hr, rfl⟩
    by_cases hf : ∃ f, r.result = .failure f
    · obtain ⟨f, hf⟩ := hf
      exact .next hr hf .nil
    · exact .last hr (fun f h => hf ⟨f, h⟩) []

theorem ne_nil (h : Tries rules verbose c ps rs) (hps : ps ≠ []) : rs ≠ [] := by
  cases h with
  | nil => exact absurd rfl hps
  | last | next => exact List.cons_ne_nil _ _

theorem length_le (h : Tries rules verbose c ps rs) : rs.length ≤ ps.length := by
  induction h with
  | nil => exact Nat.le_refl 0
  | last => exact Nat.le_add_left 1 _
  | next _ _ _ ih => exact Nat.succ_le_succ ih

/-- Every run is that of the parser at its place. -/
theorem map_snd_zip {ts : List (Text × Parser ρ α)}
    (h : Tries rules verbose c (ts.map (·.2)) rs) : (ts.zip rs).map Prod.snd = rs :=
  List.map_snd_zip (by simpa using h.length_le)

end Tries

/-- The outcome of a choice that has had these runs. -/
def lastOutcome (c : Cursor) (rs : List (Run α)) : Outcome α :=
  (rs.map (·.result)).getLast?.getD (.failure ⟨c.position, "Empty parser"⟩)

theorem lastOutcome_cons (r : Run α) {rs : List (Run α)} (h : rs ≠ []) :
    lastOutcome c (r :: rs) = lastOutcome c rs := by
  obtain ⟨s, rs, rfl⟩ := List.exists_cons_of_ne_nil h
  simp [lastOutcome, List.getLast?_cons_cons]

/-- A choice tries parsers up to one that does not fail, and ends as the last of them does. -/
theorem firstOf_reaches_iff {ps : List (Parser ρ α)} {r : Run α} :
    (firstOf ps).Reaches rules verbose c r ↔ ∃ rs, Tries rules verbose c ps rs ∧
      r = ⟨lastOutcome c rs, rs.flatMap (·.events)⟩ := by
  induction ps generalizing r with
  | nil =>
    rw [Agree.firstOf_nil c r]
    constructor
    · rintro ⟨hdeep, _ | n, rfl⟩
      · exact absurd rfl hdeep
      · exact ⟨[], .nil, rfl⟩
    · rintro ⟨_, ⟨⟩, rfl⟩
      exact ⟨by simp [Run.TooDeep, lastOutcome], 1, rfl⟩
  | cons p ps ih =>
    have hone (r : Run α) : (⟨lastOutcome c [r], [r].flatMap (·.events)⟩ : Run α) = r := by
      simp [lastOutcome]
    by_cases hps : ps = []
    · subst hps
      rw [Agree.firstOf_singleton p c r]
      constructor
      · exact fun hr => ⟨[r], Tries.singleton_iff.2 ⟨r, hr, rfl⟩, (hone r).symm⟩
      · rintro ⟨rs, hrs, rfl⟩
        obtain ⟨r, hr, rfl⟩ := Tries.singleton_iff.1 hrs
        rwa [hone]
    · rw [Agree.firstOf_cons p hps c r, orElse_reaches_iff]
      constructor
      · rintro (⟨hf, hr⟩ | ⟨f, s, t, hs, hf, ht, rfl⟩)
        · exact ⟨[r], .last hr hf ps, (hone r).symm⟩
        · obtain ⟨rs, hrs, rfl⟩ := ih.1 ht
          refine ⟨s :: rs, .next hs hf hrs, ?_⟩
          rw [lastOutcome_cons s (hrs.ne_nil hps)]
          rfl
      · rintro ⟨_, (_ | ⟨hr, hf, -⟩ | ⟨hr, hf, hrs⟩), rfl⟩
        · rw [hone]
          exact .inl ⟨hf, hr⟩
        · rw [lastOutcome_cons _ (hrs.ne_nil hps)]
          exact .inr ⟨_, _, _, hr, hf, ih.2 ⟨_, hrs, rfl⟩, rfl⟩

/-! ### Parsers that are built when their turn comes -/

/-- Delayed parsers are tried as the parsers themselves are, each behind its note. -/
theorem tries_delay_iff {ts : List (Text × Parser ρ α)} {rs : List (Run α)} :
    Tries rules verbose c (ts.map fun (note, p) => delay note p) rs ↔
      ∃ ss, Tries rules verbose c (ts.map (·.2)) ss ∧
        rs = (ts.zip ss).map fun (t, s) => s.after [.built t.1] := by
  induction ts generalizing rs with
  | nil =>
    constructor
    · rintro ⟨⟩
      exact ⟨[], .nil, rfl⟩
    · rintro ⟨_, ⟨⟩, rfl⟩
      exact .nil
  | cons t ts ih =>
    constructor
    · rintro (_ | ⟨hr, hf, -⟩ | ⟨hr, hf, hrs⟩)
      · obtain ⟨s, hs, rfl⟩ := delay_reaches_iff.1 hr
        exact ⟨[s], .last hs hf _, by simp⟩
      · obtain ⟨s, hs, rfl⟩ := delay_reaches_iff.1 hr
        obtain ⟨ss, hss, rfl⟩ := ih.1 hrs
        exact ⟨s :: ss, .next hs hf hss, rfl⟩
    · rintro ⟨_, (_ | ⟨hs, hf, -⟩ | ⟨hs, hf, hss⟩), rfl⟩
      · simp only [List.zip_cons_cons, List.zip_nil_right, List.map_cons, List.map_nil]
        exact .last (delay_reaches_iff.2 ⟨_, hs, rfl⟩) hf _
      · exact .next (delay_reaches_iff.2 ⟨_, hs, rfl⟩) hf (ih.2 ⟨_, hss, rfl⟩)

/-- A lazy choice asks for the parsers that it tries, and for no others. -/
theorem lazyFirstOf_reaches_iff {ts : List (Text × Parser ρ α)} {r : Run α} :
    (lazyFirstOf ts).Reaches rules verbose c r ↔ ∃ rs, Tries rules verbose c (ts.map (·.2)) rs ∧
      r = ⟨lastOutcome c rs, (ts.zip rs).flatMap fun (t, s) => .built t.1 :: s.events⟩ := by
  have hruns {rs : List (Run α)} (h : Tries rules verbose c (ts.map (·.2)) rs) :
      (⟨lastOutcome c ((ts.zip rs).map fun (t, s) => s.after [.built t.1]),
        ((ts.zip rs).map fun (t, s) => s.after [.built t.1]).flatMap (·.events)⟩ : Run α) =
      ⟨lastOutcome c rs, (ts.zip rs).flatMap fun (t, s) => .built t.1 :: s.events⟩ := by
    have hsnd : (ts.zip rs).map Prod.snd = rs := h.map_snd_zip
    have hlast : lastOutcome c ((ts.zip rs).map fun (t, s) => s.after [.built t.1]) =
        lastOutcome c ((ts.zip rs).map Prod.snd) := by
      simp only [lastOutcome, List.map_map]
      rfl
    rw [hlast, hsnd, List.flatMap_map]
    rfl
  rw [lazyFirstOf, firstOf_reaches_iff]
  constructor
  · rintro ⟨_, hrs, rfl⟩
    obtain ⟨ss, hss, rfl⟩ := tries_delay_iff.1 hrs
    exact ⟨ss, hss, hruns hss⟩
  · rintro ⟨ss, hss, rfl⟩
    exact ⟨_, tries_delay_iff.2 ⟨ss, hss, rfl⟩, (hruns hss).symm⟩

end Parser

/-! ### Lazy choices within each other -/

namespace Recorded

variable {β : Type}

/-- The record without the notes in a list. -/
def without (notes : List Text) (r : Recorded β) : Recorded β :=
  ⟨r.result, r.events.filter fun e => ∀ note ∈ notes, e ≠ .built note⟩

theorem result_eq_of_without_eq {notes : List Text} {r r' : Recorded β}
    (h : r.without notes = r'.without notes) : r.result = r'.result :=
  (Recorded.mk.inj h).1

theorem without_after (notes : List Text) (es : List Event) (r : Recorded β) :
    (r.after es).without notes =
      (r.without notes).after (es.filter fun e => ∀ note ∈ notes, e ≠ .built note) := by
  simp only [without, after, List.filter_append]

theorem log_without (notes : List Text) (r : Recorded β) : (r.without notes).log = r.log := by
  simp only [log, without, List.filterMap_filter]
  refine congrFun (congrArg _ (funext fun e => ?_)) _
  cases e with
  | built note => simp [Event.line?]
  | trying | matched | failed | cutOff | rejected => simp

end Recorded

namespace Parser

variable {ρ : Type → Type} {rules : Rules ρ} {verbose : Bool} {α : Type} {c : Cursor}

/-- `p` and `q` reach the same runs but for the notes in a list. -/
def AgreeBut (rules : Rules ρ) (verbose : Bool) (notes : List Text) (p q : Parser ρ α) : Prop :=
  ∀ c s, (∃ r, p.Reaches rules verbose c r ∧ r.without notes = s) ↔
    ∃ r, q.Reaches rules verbose c r ∧ r.without notes = s

namespace AgreeBut

variable {notes : List Text} {p p' q q' : Parser ρ α}

theorem symm (h : AgreeBut rules verbose notes p q) : AgreeBut rules verbose notes q p :=
  fun c r => (h c r).symm

theorem trans {s : Parser ρ α} (h : AgreeBut rules verbose notes p q)
    (h' : AgreeBut rules verbose notes q s) : AgreeBut rules verbose notes p s :=
  fun c r => (h c r).trans (h' c r)

theorem of_agree (h : Agree rules verbose p q) : AgreeBut rules verbose notes p q :=
  fun c _ => exists_congr fun r => and_congr_left fun _ => h c r

theorem delay {note : Text} (hnote : note ∈ notes) (p : Parser ρ α) :
    AgreeBut rules verbose notes (.delay note p) p := by
  have hwithout (r : Run α) : (r.after [.built note]).without notes = r.without notes := by
    have hnil : [Event.built note].filter (fun e => ∀ note ∈ notes, e ≠ .built note) = [] := by
      simpa using hnote
    rw [Recorded.without_after, hnil]
    rfl
  intro c s
  constructor
  · rintro ⟨_, hdelay, rfl⟩
    obtain ⟨r, hr, rfl⟩ := delay_reaches_iff.1 hdelay
    exact ⟨r, hr, (hwithout r).symm⟩
  · rintro ⟨r, hr, rfl⟩
    exact ⟨_, delay_reaches_iff.2 ⟨r, hr, rfl⟩, hwithout r⟩

theorem orElse (hp : AgreeBut rules verbose notes p p') (hq : AgreeBut rules verbose notes q q') :
    AgreeBut rules verbose notes (p.orElse q) (p'.orElse q') := by
  have hone {p p' q q' : Parser ρ α} (hp : AgreeBut rules verbose notes p p')
      (hq : AgreeBut rules verbose notes q q') {c : Cursor} {r : Run α}
      (hr : (p.orElse q).Reaches rules verbose c r) :
      ∃ r', (p'.orElse q').Reaches rules verbose c r' ∧ r'.without notes = r.without notes := by
    rcases orElse_reaches_iff.1 hr with ⟨hf, hr⟩ | ⟨f, s, t, hs, hf, ht, rfl⟩
    · obtain ⟨r', hr', hsame⟩ := (hp c _).1 ⟨r, hr, rfl⟩
      have hres : r'.result = r.result := Recorded.result_eq_of_without_eq hsame
      exact ⟨r', orElse_reaches_iff.2 (.inl ⟨hres ▸ hf, hr'⟩), hsame⟩
    · obtain ⟨s', hs', hsame⟩ := (hp c _).1 ⟨s, hs, rfl⟩
      obtain ⟨t', ht', hsame'⟩ := (hq c _).1 ⟨t, ht, rfl⟩
      have hres : s'.result = s.result := Recorded.result_eq_of_without_eq hsame
      refine ⟨_, orElse_reaches_iff.2 (.inr ⟨f, s', t', hs', hres.trans hf, ht', rfl⟩), ?_⟩
      rw [Recorded.without_after, Recorded.without_after, hsame']
      exact congrArg (Recorded.after · _) (congrArg Recorded.events hsame)
  intro c s
  constructor
  · rintro ⟨r, hr, rfl⟩
    exact hone hp hq hr
  · rintro ⟨r, hr, rfl⟩
    exact hone hp.symm hq.symm hr

end AgreeBut

/-- What builds a parser when its turn comes, and leaves a note: a given parser, or a lazy choice
between two that are built in the same way. -/
inductive Thunk (ρ : Type → Type) (α : Type) where
  | given (note : Text) (p : Parser ρ α)
  | choice (note : Text) (s t : Thunk ρ α)

namespace Thunk

/-- The note and the parser. -/
def built : Thunk ρ α → Text × Parser ρ α
  | given note p => (note, p)
  | choice note s t => (note, lazyFirstOf [s.built, t.built])

/-- The given parsers with their notes, in order. -/
def leaves : Thunk ρ α → List (Text × Parser ρ α)
  | given note p => [(note, p)]
  | choice _ s t => s.leaves ++ t.leaves

/-- The notes of the choices. -/
def inner : Thunk ρ α → List Text
  | given _ _ => []
  | choice note s t => note :: (s.inner ++ t.inner)

theorem leaves_ne_nil (t : Thunk ρ α) : t.leaves ≠ [] := by
  induction t with
  | given => exact List.cons_ne_nil _ _
  | choice _ s t _ ih => simp [leaves, ih]

theorem agreeBut_choice {notes : List Text} {s t : Thunk ρ α}
    (hs : AgreeBut rules verbose notes (delay s.built.1 s.built.2) (lazyFirstOf s.leaves))
    (ht : AgreeBut rules verbose notes (delay t.built.1 t.built.2) (lazyFirstOf t.leaves)) :
    AgreeBut rules verbose notes (lazyFirstOf [s.built, t.built])
      (lazyFirstOf (s.leaves ++ t.leaves)) := by
  have hpair : Agree rules verbose (lazyFirstOf [s.built, t.built])
      ((delay s.built.1 s.built.2).orElse (delay t.built.1 t.built.2)) :=
    (Agree.foldl_orElse _ [_]).symm
  have hleaves : Agree rules verbose (lazyFirstOf (s.leaves ++ t.leaves))
      ((lazyFirstOf s.leaves).orElse (lazyFirstOf t.leaves)) := by
    rw [lazyFirstOf, List.map_append]
    exact Agree.firstOf_append _ (by simpa using t.leaves_ne_nil)
  exact (AgreeBut.of_agree hpair).trans ((hs.orElse ht).trans (.of_agree hleaves.symm))

theorem agreeBut_delay {notes : List Text} (t : Thunk ρ α) (h : t.inner ⊆ notes) :
    AgreeBut rules verbose notes (delay t.built.1 t.built.2) (lazyFirstOf t.leaves) := by
  induction t with
  | given note p => exact .of_agree (Agree.firstOf_singleton _).symm
  | choice note s t ihs iht =>
    obtain ⟨hnote, hinner⟩ := List.cons_subset.1 h
    obtain ⟨hs, ht⟩ := List.append_subset.1 hinner
    exact (AgreeBut.delay hnote _).trans (agreeBut_choice (ihs hs) (iht ht))

end Thunk

/-! ### All forms of a choice -/

/-- `p` ends in `o` at `c` with the lines `l` logged. -/
def Logs (rules : Rules ρ) (verbose : Bool) (p : Parser ρ α) (c : Cursor) (o : Outcome α)
    (l : List Text) : Prop :=
  ∃ r, p.Reaches rules verbose c r ∧ r.result = o ∧ r.log = l

theorem AgreeBut.logs_iff {notes : List Text} {p q : Parser ρ α} {o : Outcome α} {l : List Text}
    (h : AgreeBut rules verbose notes p q) :
    p.Logs rules verbose c o l ↔ q.Logs rules verbose c o l := by
  have hone {p q : Parser ρ α} (h : AgreeBut rules verbose notes p q)
      (hp : p.Logs rules verbose c o l) : q.Logs rules verbose c o l := by
    obtain ⟨r, hr, rfl, rfl⟩ := hp
    obtain ⟨r', hr', hsame⟩ := (h c _).1 ⟨r, hr, rfl⟩
    refine ⟨r', hr', Recorded.result_eq_of_without_eq hsame, ?_⟩
    rw [← Recorded.log_without notes r', hsame, Recorded.log_without]
  exact ⟨hone h, hone h.symm⟩

theorem logs_firstOf_iff {ps : List (Parser ρ α)} {o : Outcome α} {l : List Text} :
    (firstOf ps).Logs rules verbose c o l ↔ ∃ rs, Tries rules verbose c ps rs ∧
      lastOutcome c rs = o ∧ rs.flatMap (·.log) = l := by
  have hlog (rs : List (Run α)) :
      (⟨lastOutcome c rs, rs.flatMap (·.events)⟩ : Run α).log = rs.flatMap (·.log) :=
    List.filterMap_flatMap
  constructor
  · rintro ⟨r, hr, rfl, rfl⟩
    obtain ⟨rs, hrs, rfl⟩ := firstOf_reaches_iff.1 hr
    exact ⟨rs, hrs, rfl, (hlog rs).symm⟩
  · rintro ⟨rs, hrs, rfl, rfl⟩
    exact ⟨_, firstOf_reaches_iff.2 ⟨rs, hrs, rfl⟩, rfl, hlog rs⟩

theorem logs_lazyFirstOf_iff {ts : List (Text × Parser ρ α)} {o : Outcome α} {l : List Text} :
    (lazyFirstOf ts).Logs rules verbose c o l ↔
      (firstOf (ts.map (·.2))).Logs rules verbose c o l := by
  have hlog {rs : List (Run α)} (h : Tries rules verbose c (ts.map (·.2)) rs) :
      (⟨lastOutcome c rs, (ts.zip rs).flatMap fun (t, s) => .built t.1 :: s.events⟩ : Run α).log =
        rs.flatMap (·.log) := by
    have hsnd : (ts.zip rs).map Prod.snd = rs := h.map_snd_zip
    calc ((ts.zip rs).flatMap fun (t, s) => Event.built t.1 :: s.events).filterMap Event.line?
        = (ts.zip rs).flatMap fun x => x.2.log := List.filterMap_flatMap
      _ = ((ts.zip rs).map Prod.snd).flatMap (·.log) := (List.flatMap_map ..).symm
      _ = rs.flatMap (·.log) := by rw [hsnd]
  rw [logs_firstOf_iff]
  constructor
  · rintro ⟨r, hr, rfl, rfl⟩
    obtain ⟨rs, hrs, rfl⟩ := lazyFirstOf_reaches_iff.1 hr
    exact ⟨rs, hrs, rfl, (hlog hrs).symm⟩
  · rintro ⟨rs, hrs, rfl, rfl⟩
    exact ⟨_, lazyFirstOf_reaches_iff.2 ⟨rs, hrs, rfl⟩, rfl, hlog hrs⟩

/-- All choices from the same parsers do the same: the list as a whole, the alternatives nested to
the left behind the parser that always fails, those nested to the right, and the lazy choices, also
if these are nested in any way. They end as the last parser that was tried, and with the same log.
Lazy ones build the parsers that they try, in order and each once; the notes of nested choices come
on top of that. -/
theorem choices_agree (rules : Rules ρ) (verbose : Bool) (ts : List (Text × Parser ρ α)) :
    let ps := ts.map (·.2)
    (∀ c r, (firstOf ps).Reaches rules verbose c r ↔ ∃ rs, Tries rules verbose c ps rs ∧
      r = ⟨lastOutcome c rs, rs.flatMap (·.events)⟩) ∧
    Agree rules verbose (ps.foldl orElse empty) (firstOf ps) ∧
    (∀ qs q, ps = qs ++ [q] → Agree rules verbose (qs.foldr orElse q) (firstOf ps)) ∧
    (∀ c r, (lazyFirstOf ts).Reaches rules verbose c r ↔ ∃ rs, Tries rules verbose c ps rs ∧
      r = ⟨lastOutcome c rs, (ts.zip rs).flatMap fun (t, s) => .built t.1 :: s.events⟩) ∧
    (∀ c o l, (lazyFirstOf ts).Logs rules verbose c o l ↔ (firstOf ps).Logs rules verbose c o l) ∧
    ∀ s t : Thunk ρ α, s.leaves ++ t.leaves = ts →
      AgreeBut rules verbose (s.inner ++ t.inner) (lazyFirstOf [s.built, t.built])
        (lazyFirstOf ts) ∧
      ∀ c o l, (lazyFirstOf [s.built, t.built]).Logs rules verbose c o l ↔
        (firstOf ps).Logs rules verbose c o l := by
  intro ps
  refine ⟨fun _ _ => firstOf_reaches_iff, ?_, ?_, fun _ _ => lazyFirstOf_reaches_iff,
    fun _ _ _ => logs_lazyFirstOf_iff, ?_⟩
  · by_cases hps : ps = []
    · rw [hps]
      exact Agree.firstOf_nil.symm
    · refine (Agree.foldl_orElse empty ps).trans ((Agree.firstOf_cons empty hps).trans ?_)
      exact Agree.empty_orElse _
  · intro qs q hqs
    rw [hqs]
    exact Agree.foldr_orElse qs q
  · rintro s t rfl
    have hnested : AgreeBut rules verbose (s.inner ++ t.inner) (lazyFirstOf [s.built, t.built])
        (lazyFirstOf (s.leaves ++ t.leaves)) :=
      Thunk.agreeBut_choice (s.agreeBut_delay (List.subset_append_left s.inner t.inner))
        (t.agreeBut_delay (List.subset_append_right s.inner t.inner))
    exact ⟨hnested, fun c o l => hnested.logs_iff.trans logs_lazyFirstOf_iff⟩

/-- The second parser fails behind its first character, the third one raises, and the fourth one is
not asked for. -/
theorem choices_agree_raise :
    let rules : Rules fun _ => Empty := fun _ r => r.elim
    let first : Parser (fun _ => Empty) Text := trace "a" .ok (string "a")
    let second : Parser (fun _ => Empty) Text := trace "bc" .ok (string "bc")
    let third : Parser (fun _ => Empty) Text := throw .emptySequence
    let fourth : Parser (fun _ => Empty) Text := string "b"
    let c : Cursor := .start "bd" []
    let r := (firstOf [first, second, third, fourth]).parse rules true c
    let ts : List (Text × Parser (fun _ => Empty) Text) :=
      [("first", first), ("second", second), ("third", third), ("fourth", fourth)]
    let s : Thunk (fun _ => Empty) Text := .choice "left" (.given "first" first)
      (.given "second" second)
    let t : Thunk (fun _ => Empty) Text := .choice "right" (.given "third" third)
      (.given "fourth" fourth)
    r.result = .abort (.fault .emptySequence) ∧ r.log.length = 4 ∧
      (((empty.orElse first).orElse second).orElse third |>.orElse fourth).Reaches rules true c r ∧
      (first.orElse (second.orElse (third.orElse fourth))).Reaches rules true c r ∧
      (lazyFirstOf ts).Logs rules true c r.result r.log ∧
      ((lazyFirstOf ts).parse rules true c).notes = ["first", "second", "third"] ∧
      s.leaves ++ t.leaves = ts ∧
      (lazyFirstOf [s.built, t.built]).Logs rules true c r.result r.log ∧
      ((lazyFirstOf [s.built, t.built]).parse rules true c).notes =
        ["left", "first", "second", "right", "third"] := by
  intro rules first second third fourth c r ts s t
  have hresult : r.result = .abort (.fault .emptySequence) := by decide +kernel
  have hr : (firstOf [first, second, third, fourth]).Reaches rules true c r :=
    ⟨fun hdeep => absurd (hresult.symm.trans hdeep) (by simp), nestingLimit, rfl⟩
  obtain ⟨-, hleft, hright, -, hlazy, hnested⟩ := choices_agree rules true ts
  refine ⟨hresult, by decide +kernel, (hleft c r).2 hr,
    (hright [first, second, third] fourth rfl c r).2 hr, (hlazy c _ _).2 ⟨r, hr, rfl, rfl⟩,
    by decide +kernel, rfl, ((hnested s t rfl).2 c _ _).2 ⟨r, hr, rfl, rfl⟩, by decide +kernel⟩

end Parser
end Descent
