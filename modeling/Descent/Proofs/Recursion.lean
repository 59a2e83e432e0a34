import Descent.Proofs.Calls

/-!
# Recursion put into a grammar

`rules.extend body` is the grammar `rules` with further rules `body i`, which may refer to each
other and to themselves (`own i`) and, by renamed references, to the rules of the grammar. Renaming
references changes no run as long as they stand for the same rules (`Parser.run_rename`), so that a
parser of the grammar runs in the extended one as it does without the further rules
(`Parser.reaches_lift_iff`).
-/

namespace Descent

/-- References to old rules, and to further ones whose values are of type `β`. -/
inductive Extended (ρ : Type → Type) (ι β α : Type) : Type where
  | old (r : ρ α)
  | own (i : ι) (h : β = α)

namespace Parser

variable {ρ σ : Type → Type} {ι α β : Type}

def rename (f : {α : Type} → ρ α → σ α) : {α : Type} → Parser ρ α → Parser σ α
  | _, anyChar => anyChar
  | _, eof => eof
  | _, .pure v => .pure v
  | _, fail message => fail message
  | _, throw fault => throw fault
  | _, bind p k => bind (p.rename f) fun v => (k v).rename f
  | _, tryMap g p => tryMap g (p.rename f)
  | _, filter accepts shown description p => filter accepts shown description (p.rename f)
  | _, label description p => label description (p.rename f)
  | _, orElse p q => orElse (p.rename f) (q.rename f)
  | _, anyOf n ps => anyOf n fun i => (ps i).rename f
  | _, many p => many (p.rename f)
  | _, chainLeft operand operator => chainLeft (operand.rename f) (operator.rename f)
  | _, trace name shown p => trace name shown (p.rename f)
  | _, delay note p => delay note (p.rename f)
  | _, ref r => ref (f r)

theorem run_rename {rules : Rules ρ} {rules' : Rules σ} {f : {α : Type} → ρ α → σ α}
    (h : ∀ {α : Type} (r : ρ α), rules' _ (f r) = (rules _ r).rename f) (verbose : Bool) (n : Nat)
    (p : Parser ρ α) : (p.rename f).run rules' verbose n = p.run rules verbose n := by
  induction n generalizing α with
  | zero => rfl
  | succ n ih =>
    funext c
    cases p with
    | anyChar | eof | pure | fail | throw => rfl
    | bind | tryMap | filter | label | orElse | anyOf | many | chainLeft | trace | delay =>
      simp only [rename, run, ih]
    | ref r => simp only [rename, run, h, ih]

/-- A parser of a grammar in an extended one. -/
def lift (p : Parser ρ α) : Parser (Extended ρ ι β) α := p.rename .old

end Parser

def Rules.extend {ρ : Type → Type} {ι β : Type} (rules : Rules ρ)
    (body : ι → Parser (Extended ρ ι β) β) : Rules (Extended ρ ι β)
  | _, .old r => (rules _ r).lift
  | _, .own i rfl => body i

namespace Parser

variable {ρ : Type → Type} {ι α β : Type} {rules : Rules ρ} {body : ι → Parser (Extended ρ ι β) β}
  {verbose : Bool} {p : Parser ρ α} {c : Cursor}

theorem run_lift (n : Nat) (p : Parser ρ α) :
    p.lift.run (rules.extend body) verbose n = p.run rules verbose n :=
  run_rename (fun _ => rfl) verbose n p

theorem reaches_lift_iff {r : Run α} :
    p.lift.Reaches (rules.extend body) verbose c r ↔ p.Reaches rules verbose c r := by
  simp only [Reaches, run_lift]

theorem succeeds_lift_iff {v : α} {d : Cursor} :
    p.lift.Succeeds (rules.extend body) verbose c v d ↔ p.Succeeds rules verbose c v d := by
  simp only [Succeeds, run_lift]

end Parser
end Descent
