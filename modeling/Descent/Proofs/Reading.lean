import Descent.Json.Grammar
import Descent.Parser.Depth
import Descent.Parser.Reading
import Descent.Proofs.Translation

/-!
# Ways to read a text

`runText` and `readText` run a parser in the same way and differ only in how they tell its answer
(`readText_result`). To demand that the whole text is consumed is to read with `eof` behind the
parser: the check for a rest and `eof` word their failures alike (`readText_of_run_eq`). What `eof`
costs is one level of depth.
-/

namespace Descent
namespace Parser

variable {ρ : Type → Type} {α : Type} {rules : Rules ρ} {verbose : Bool} {p : Parser ρ α}
  {text name : Text} {c : Cursor}

theorem readText_result (rules : Rules ρ) (verbose : Bool) (p : Parser ρ α) (text name : Text) :
    (p.readText rules verbose text name false).result =
      match (p.runText rules verbose text name).result with
      | .ok (.ok v) => .ok v
      | .ok (.error f) => .error (.failure f)
      | .error a => .error (.abort a) := by
  simp only [readText, runText, Recorded.map]
  cases (p.attempt rules verbose (.start text name)).result with
  | success v c => simp
  | failure f => rfl
  | abort a => rfl

/-! ### Nesting beyond the limit -/

theorem attempt_of_tooDeep (h : (p.parse rules verbose c).TooDeep) :
    (p.attempt rules verbose c).result = .failure ⟨c.position, "Input nested too deeply"⟩ := by
  simp only [attempt, show (p.parse rules verbose c).result = _ from h]
  rfl

theorem readText_of_tooDeep (h : (p.parse rules verbose (.start text name)).TooDeep)
    (consumeAll : Bool) :
    (p.readText rules verbose text name consumeAll).result =
      .error (.failure ⟨.start name, "Input nested too deeply"⟩) := by
  simp only [readText, attempt_of_tooDeep h]
  rfl

/-- Less depth is not enough where more is not. -/
theorem tooDeep_of_le {n m : Nat} (hnm : n ≤ m) (h : (p.run rules verbose m c).TooDeep) :
    (p.run rules verbose n c).TooDeep := by
  by_cases hn : (p.run rules verbose n c).TooDeep
  · exact hn
  · rwa [run_of_le hnm hn] at h

/-! ### The end of the text behind a parser -/

/-- Ends a run where something is left unread behind it. -/
def demandEnd (r : Run α) : Run α :=
  r.andThen fun v d => Recorded.map (·.tryMap fun _ => .ok v) ⟨d.readEnd, []⟩

theorem parse_keepLeft_eof (rules : Rules ρ) (verbose : Bool) (p : Parser ρ α) (c : Cursor) :
    (p.keepLeft eof).parse rules verbose c = demandEnd (p.run rules verbose (nestingLimit - 1) c) :=
  rfl

theorem demandEnd_of_atEnd {v : α} {d : Cursor} {es : List Event} (h : d.AtEnd) :
    demandEnd ⟨.success v d, es⟩ = ⟨.success v d, es⟩ := by
  simp [demandEnd, Run.andThen, Cursor.readEnd, h, Recorded.map, Recorded.after, Outcome.tryMap]

theorem demandEnd_of_unread {v : α} {d : Cursor} {es : List Event} {x : CodePoint} {t : Text}
    (h : d.unread = x :: t) :
    demandEnd ⟨.success v d, es⟩ =
      ⟨.failure ⟨d.position, "Expected end of input, but got " ++ [x]⟩, es⟩ := by
  simp [demandEnd, Run.andThen, Cursor.readEnd_of_cons h, Recorded.map, Recorded.after,
    Outcome.tryMap]

theorem tooDeep_demandEnd_iff {r : Run α} : (demandEnd r).TooDeep ↔ r.TooDeep := by
  rcases r with ⟨o, es⟩
  cases o with
  | success v d =>
    have hr : ¬ Run.TooDeep ⟨Outcome.success v d, es⟩ := nofun
    refine iff_of_false ?_ hr
    cases hu : d.unread with
    | nil => rw [demandEnd_of_atEnd (d.atEnd_iff_unread_eq_nil.2 hu)]; exact hr
    | cons x t => rw [demandEnd_of_unread hu]; exact nofun
  | failure f => exact Iff.rfl
  | abort a => exact Iff.rfl

/-- If the level that `eof` costs makes no difference to the parser itself, then reading with `eof`
behind it is reading a text as a whole. -/
theorem readText_of_run_eq (h : p.run rules verbose (nestingLimit - 1) (.start text name) =
      p.parse rules verbose (.start text name)) :
    p.readText rules verbose text name true =
      (p.keepLeft eof).readText rules verbose text name false := by
  simp only [readText, attempt, parse_keepLeft_eof, h]
  rcases p.parse rules verbose (.start text name) with ⟨o, es⟩
  cases o with
  | failure f => rfl
  | abort a => cases ha : a.isNesting <;> simp [demandEnd, Run.andThen, ha]
  | success v d =>
    cases hu : d.unread with
    | nil =>
      have hd : d.AtEnd := d.atEnd_iff_unread_eq_nil.2 hu
      simp [demandEnd_of_atEnd hd, hd]
    | cons x t =>
      have hd : ¬ d.AtEnd := by
        rw [Cursor.atEnd_iff_unread_eq_nil, hu]
        exact List.cons_ne_nil x t
      simp [demandEnd_of_unread hu, hd, (d.current_of_unread hu).1]

/-- The ways to read a text agree. The last two statements are about the one level of depth that
`eof` takes: it must not be what exhausts the depth. -/
theorem readText_agrees (rules : Rules ρ) (verbose : Bool) (p : Parser ρ α) (text name : Text) :
    (∀ v, (p.readText rules verbose text name false).result = .ok v ↔
      (p.runText rules verbose text name).result = .ok (.ok v)) ∧
    (∀ f, (p.readText rules verbose text name false).result = .error (.failure f) ↔
      (p.runText rules verbose text name).result = .ok (.error f)) ∧
    (∀ a, (p.readText rules verbose text name false).result = .error (.abort a) ↔
      (p.runText rules verbose text name).result = .error a) ∧
    ((((p.keepLeft eof).parse rules verbose (.start text name)).TooDeep →
        (p.parse rules verbose (.start text name)).TooDeep) →
      (p.readText rules verbose text name true).result =
        ((p.keepLeft eof).readText rules verbose text name false).result) ∧
    (p.run rules verbose (nestingLimit - 1) (.start text name) =
        p.parse rules verbose (.start text name) →
      p.readText rules verbose text name true =
        (p.keepLeft eof).readText rules verbose text name false) := by
  have hread := p.readText_result rules verbose text name
  refine ⟨fun v => ?_, fun f => ?_, fun a => ?_, fun hdeep => ?_, readText_of_run_eq⟩
  · rw [hread]
    rcases (p.runText rules verbose text name).result with a | f | v' <;> simp
  · rw [hread]
    rcases (p.runText rules verbose text name).result with a | f' | v <;> simp
  · rw [hread]
    rcases (p.runText rules verbose text name).result with a' | f | v <;> simp
  · by_cases hp : (p.parse rules verbose (.start text name)).TooDeep
    · have hless : ((p.keepLeft eof).parse rules verbose (.start text name)).TooDeep :=
        tooDeep_demandEnd_iff.2 (tooDeep_of_le (Nat.sub_le nestingLimit 1) hp)
      rw [readText_of_tooDeep hp, readText_of_tooDeep hless]
    · have hless : ¬ (p.run rules verbose (nestingLimit - 1) (.start text name)).TooDeep :=
        fun h => hp (hdeep (tooDeep_demandEnd_iff.2 h))
      rw [readText_of_run_eq (run_of_le (Nat.sub_le nestingLimit 1) hless).symm]

theorem readText_agrees_digits :
    let p : Parser Json.Rule Text := digits
    let c : Cursor := .start "42x" []
    (((p.keepLeft eof).parse Json.rules true c).TooDeep → (p.parse Json.rules true c).TooDeep) ∧
    p.run Json.rules true (nestingLimit - 1) c = p.parse Json.rules true c ∧
    (p.readText Json.rules true "42x" [] true).result =
      ((p.keepLeft eof).readText Json.rules true "42x" [] false).result ∧
    p.readText Json.rules true "42x" [] true =
      (p.keepLeft eof).readText Json.rules true "42x" [] false := by
  intro p c
  have hdeep : ¬ (p.run Json.rules true (nestingLimit - 1) c).TooDeep := by decide +kernel
  have hextra : ((p.keepLeft eof).parse Json.rules true c).TooDeep →
      (p.parse Json.rules true c).TooDeep := fun h => absurd (tooDeep_demandEnd_iff.1 h) hdeep
  have hrun : p.run Json.rules true (nestingLimit - 1) c = p.parse Json.rules true c :=
    (run_of_le (Nat.sub_le nestingLimit 1) hdeep).symm
  obtain ⟨-, -, -, hresult, hread⟩ := readText_agrees Json.rules true p "42x" []
  exact ⟨hextra, hrun, hresult hextra, hread hrun⟩

end Parser
end Descent
