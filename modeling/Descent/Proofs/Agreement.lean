import Descent.Proofs.Likeness

/-!
# Parsers that agree

Two parsers agree if they reach the same runs: they end alike, with the same events, apart from the
depth that they need for it. `Run.Matches` is agreement of families of runs, one run for each depth.
The operations on runs keep it (`Run.Matches.andThen` and the like), and a parser matches itself
with one more unit of depth (`Parser.matches_succ`). So parsers agree if their runs are equal by the
laws of the operations on runs, wherever they spend their depth.
-/

namespace Descent

/-- Equal failures and equal events. -/
def Likeness.exact : Likeness where
  failures := Eq
  events := Eq
  nil := rfl
  append h h' := by rw [h, h']

namespace Run

variable {α β γ : Type}

theorem alike_exact_iff {r r' : Run α} : Alike .exact r r' ↔ r = r' := by
  constructor
  · intro h
    rcases r with ⟨o, es⟩
    rcases r' with ⟨o', es'⟩
    obtain rfl : o = o' := h.result.eq fun _ _ => id
    obtain rfl : es = es' := h.events
    rfl
  · rintro rfl
    exact ⟨.refl (fun _ => rfl) r.result, rfl⟩

/-! ### Laws of sequences -/

@[simp] theorem andThen_success (r : Run α) : r.andThen success = r := by
  rcases r with ⟨o, es⟩
  cases o with
  | success v c => simp [andThen, success, Recorded.after]
  | failure | abort => rfl

theorem after_andThen (es : List Event) (r : Run α) (k : α → Cursor → Run β) :
    andThen (r.after es) k = (r.andThen k).after es := by
  rcases r with ⟨o, fs⟩
  cases o with
  | success v c => simp [andThen, Recorded.after]
  | failure | abort => rfl

theorem andThen_assoc (r : Run α) (k : α → Cursor → Run β) (l : β → Cursor → Run γ) :
    (r.andThen k).andThen l = r.andThen fun v c => (k v c).andThen l := by
  rcases r with ⟨o, es⟩
  cases o with
  | success v c => exact after_andThen es (k v c) l
  | failure | abort => rfl

/-- Something is done with a value by a step of its own that consumes nothing. -/
theorem map_tryMap_eq_andThen (f : α → Except Fault β) (r : Run α) :
    Recorded.map (·.tryMap f) r = r.andThen fun v c => ⟨(Outcome.success v c).tryMap f, []⟩ := by
  rcases r with ⟨o, es⟩
  cases o with
  | success v c => simp [andThen, Recorded.map, Recorded.after]
  | failure | abort => rfl

theorem map_andThen (g : α → β) (r : Run α) (k : β → Cursor → Run γ) :
    Run.andThen (Recorded.map (·.tryMap fun v => .ok (g v)) r) k =
      r.andThen fun v d => k (g v) d := by
  rcases r with ⟨o, es⟩
  cases o <;> rfl

/-! ### Families of runs -/

/-- Two families of runs, one run for each depth, come to the same run, or neither comes to one. -/
structure Matches (f g : Nat → Run α) : Prop where
  left : ∀ n, Reproduced .exact (f n) g
  right : ∀ n, Reproduced .exact (g n) f

namespace Matches

variable {f g h : Nat → Run α}

theorem symm (h : Matches f g) : Matches g f := ⟨h.right, h.left⟩

theorem reproduced {r : Run α} (h : Matches f g) (hr : Reproduced .exact r f) :
    Reproduced .exact r g := by
  intro hdeep
  obtain ⟨m, hm⟩ := hr hdeep
  have hfm : r = f m := alike_exact_iff.1 (hm m (Nat.le_refl m))
  rw [hfm] at hdeep ⊢
  exact h.left m hdeep

theorem trans (h₁ : Matches f g) (h₂ : Matches g h) : Matches f h :=
  ⟨fun n => h₂.reproduced (h₁.left n), fun n => h₁.symm.reproduced (h₂.right n)⟩

/-- What the one family succeeds with the other one does as well. -/
theorem success {v : α} {c : Cursor} (h : Matches f g) (hv : ∃ n, (g n).result = .success v c) :
    ∃ n, (f n).result = .success v c := by
  obtain ⟨n, hn⟩ := hv
  obtain ⟨m, hm⟩ := h.right n fun hdeep => nomatch hdeep.symm.trans hn
  exact ⟨m, alike_exact_iff.1 (hm m (Nat.le_refl m)) ▸ hn⟩

theorem failure (h : Matches f g) (hf : ∃ n e, (g n).result = .failure e) :
    ∃ n e, (f n).result = .failure e := by
  obtain ⟨n, e, hn⟩ := hf
  obtain ⟨m, hm⟩ := h.right n fun hdeep => nomatch hdeep.symm.trans hn
  exact ⟨m, e, alike_exact_iff.1 (hm m (Nat.le_refl m)) ▸ hn⟩

/-- What follows has to match only where the first part leads to. -/
theorem andThen {k l : α → Cursor → Nat → Run β} (h : Matches f g)
    (hk : ∀ v c, (∃ n, (f n).result = .success v c) → Matches (k v c) (l v c)) :
    Matches (fun n => (f n).andThen fun v c => k v c n)
      fun n => (g n).andThen fun v c => l v c n :=
  ⟨fun n => (h.left n).andThen fun v c hv => (hk v c ⟨n, hv⟩).left n,
    fun n => (h.right n).andThen fun v c hv => (hk v c (h.success ⟨n, hv⟩)).right n⟩

theorem orElse {k l : Nat → Run α} (h : Matches f g)
    (hk : (∃ n e, (f n).result = .failure e) → Matches k l) :
    Matches (fun n => (f n).orElse fun _ => k n) fun n => (g n).orElse fun _ => l n :=
  ⟨fun n => (h.left n).orElse fun ⟨e, he⟩ => (hk ⟨n, e, he⟩).left n,
    fun n => (h.right n).orElse fun ⟨e, he⟩ => (hk (h.failure ⟨n, e, he⟩)).right n⟩

theorem tryMap (w : α → Except Fault β) (h : Matches f g) :
    Matches (fun n => Recorded.map (·.tryMap w) (f n)) fun n => Recorded.map (·.tryMap w) (g n) :=
  ⟨fun n => (h.left n).map (fun _ _ ho => ho.tryMap w) rfl,
    fun n => (h.right n).map (fun _ _ ho => ho.tryMap w) rfl⟩

end Matches
end Run

namespace Parser

variable {ρ : Type → Type} {rules : Rules ρ} {verbose : Bool} {α β γ : Type} {c : Cursor}

/-! ### Runs of a parser at all depths -/

theorem matches_refl (p : Parser ρ α) (c : Cursor) :
    Run.Matches (p.run rules verbose · c) (p.run rules verbose · c) := by
  have hself (n : Nat) : Run.Reproduced .exact (p.run rules verbose n c)
      (p.run rules verbose · c) :=
    fun hdeep => ⟨n, fun m hnm => Run.alike_exact_iff.2 (run_of_le hnm hdeep).symm⟩
  exact ⟨hself, hself⟩

/-- At one more unit of depth a run is put together from those of its parts. -/
theorem matches_succ (p : Parser ρ α) (c : Cursor) :
    Run.Matches (p.run rules verbose · c) fun n => p.run rules verbose (n + 1) c := by
  constructor
  · intro n hdeep
    refine ⟨n, fun m hnm => Run.alike_exact_iff.2 (run_of_le ?_ hdeep).symm⟩
    omega
  · intro n hdeep
    exact ⟨n + 1, fun m hnm => Run.alike_exact_iff.2 (run_of_le hnm hdeep).symm⟩

theorem matches_pure (v : α) (c : Cursor) :
    Run.Matches ((Parser.pure v : Parser ρ α).run rules verbose · c) fun _ => .success v c :=
  matches_succ _ c

theorem matches_bind (p : Parser ρ α) (k : α → Parser ρ β) (c : Cursor) :
    Run.Matches ((p.bind k).run rules verbose · c) fun n =>
      (p.run rules verbose n c).andThen fun v d => (k v).run rules verbose n d :=
  matches_succ _ c

theorem matches_tryMap (f : α → Except Fault β) (p : Parser ρ α) (c : Cursor) :
    Run.Matches ((p.tryMap f).run rules verbose · c) fun n =>
      Recorded.map (·.tryMap f) (p.run rules verbose n c) :=
  matches_succ _ c

theorem matches_orElse (p q : Parser ρ α) (c : Cursor) :
    Run.Matches ((p.orElse q).run rules verbose · c) fun n =>
      (p.run rules verbose n c).orElse fun _ => q.run rules verbose n c :=
  matches_succ _ c

/-! ### Agreement -/

/-- `p` and `q` reach the same run at `c`, or neither of them reaches one. -/
def AgreeAt (rules : Rules ρ) (verbose : Bool) (c : Cursor) (p q : Parser ρ α) : Prop :=
  ∀ r, p.Reaches rules verbose c r ↔ q.Reaches rules verbose c r

/-- `p` and `q` reach the same runs, wherever they start. -/
def Agree (rules : Rules ρ) (verbose : Bool) (p q : Parser ρ α) : Prop :=
  ∀ c, AgreeAt rules verbose c p q

variable {p p' q q' : Parser ρ α} {k k' : α → Parser ρ β}

theorem agreeAt_iff_matches : AgreeAt rules verbose c p q ↔
    Run.Matches (p.run rules verbose · c) (q.run rules verbose · c) := by
  have hreproduced {p q : Parser ρ α}
      (h : ∀ r, p.Reaches rules verbose c r → q.Reaches rules verbose c r) (n : Nat) :
      Run.Reproduced .exact (p.run rules verbose n c) (q.run rules verbose · c) := by
    intro hdeep
    obtain ⟨-, m, hm⟩ := h _ ⟨hdeep, n, rfl⟩
    refine ⟨m, fun l hml => Run.alike_exact_iff.2 ?_⟩
    rw [← hm] at hdeep ⊢
    exact (run_of_le hml hdeep).symm
  have hreaches {p q : Parser ρ α} {r : Run α}
      (h : ∀ n, Run.Reproduced .exact (p.run rules verbose n c) (q.run rules verbose · c))
      (hr : p.Reaches rules verbose c r) : q.Reaches rules verbose c r := by
    obtain ⟨hdeep, n, rfl⟩ := hr
    obtain ⟨m, hm⟩ := h n hdeep
    exact ⟨hdeep, m, (Run.alike_exact_iff.1 (hm m (Nat.le_refl m))).symm⟩
  exact ⟨fun h => ⟨hreproduced fun r => (h r).1, hreproduced fun r => (h r).2⟩,
    fun h r => ⟨hreaches h.left, hreaches h.right⟩⟩

namespace AgreeAt

theorem symm (h : AgreeAt rules verbose c p q) : AgreeAt rules verbose c q p :=
  fun r => (h r).symm

theorem trans {r : Parser ρ α} (h : AgreeAt rules verbose c p q)
    (h' : AgreeAt rules verbose c q r) : AgreeAt rules verbose c p r :=
  fun s => (h s).trans (h' s)

theorem bind (hp : AgreeAt rules verbose c p p')
    (hk : ∀ v d, p.Succeeds rules verbose c v d → AgreeAt rules verbose d (k v) (k' v)) :
    AgreeAt rules verbose c (p.bind k) (p'.bind k') := by
  rw [agreeAt_iff_matches] at hp ⊢
  refine (matches_bind p k c).trans (.trans ?_ (matches_bind p' k' c).symm)
  exact hp.andThen fun v d hv => agreeAt_iff_matches.1 (hk v d hv)

theorem tryMap (f : α → Except Fault β) (hp : AgreeAt rules verbose c p p') :
    AgreeAt rules verbose c (p.tryMap f) (p'.tryMap f) := by
  rw [agreeAt_iff_matches] at hp ⊢
  exact (matches_tryMap f p c).trans ((hp.tryMap f).trans (matches_tryMap f p' c).symm)

theorem orElse (hp : AgreeAt rules verbose c p p') (hq : AgreeAt rules verbose c q q') :
    AgreeAt rules verbose c (p.orElse q) (p'.orElse q') := by
  rw [agreeAt_iff_matches] at hp hq ⊢
  refine (matches_orElse p q c).trans (.trans ?_ (matches_orElse p' q' c).symm)
  exact hp.orElse fun _ => hq

end AgreeAt

namespace Agree

theorem refl (p : Parser ρ α) : Agree rules verbose p p := fun _ _ => Iff.rfl

theorem symm (h : Agree rules verbose p q) : Agree rules verbose q p := fun c => (h c).symm

theorem trans {r : Parser ρ α} (h : Agree rules verbose p q) (h' : Agree rules verbose q r) :
    Agree rules verbose p r :=
  fun c => (h c).trans (h' c)

theorem bind (hp : Agree rules verbose p p') (hk : ∀ v, Agree rules verbose (k v) (k' v)) :
    Agree rules verbose (p.bind k) (p'.bind k') :=
  fun c => (hp c).bind fun v d _ => hk v d

end Agree
end Parser
end Descent
