/-!
# Code points

`CodePoint` is a Unicode code point, surrogates included: unlike `Char` it can be half of a
surrogate pair, which an escape such as `\ud800` denotes. `CodePoint.ofChar` is injective and
misses exactly the surrogates (`toChar?_ofChar`).
-/

namespace Descent

structure CodePoint where
  val : Nat
  val_lt : val < 0x110000 := by decide
deriving DecidableEq

namespace CodePoint

instance : Inhabited CodePoint := ⟨⟨0, by decide⟩⟩

theorem ext_val {c d : CodePoint} (h : c.val = d.val) : c = d := by
  cases c; cases d; cases h; rfl

def ofChar (c : Char) : CodePoint :=
  ⟨c.toNat, by
    have h := c.valid
    simp only [UInt32.isValidChar, Nat.isValidChar] at h
    show c.val.toNat < _
    omega⟩

instance : Coe Char CodePoint := ⟨ofChar⟩

def ofNat? (n : Nat) : Option CodePoint :=
  if h : n < 0x110000 then some ⟨n, h⟩ else none

/-- The character of a code point that is no surrogate. -/
def toChar? (c : CodePoint) : Option Char :=
  if h : c.val.isValidChar then some (Char.ofNatAux c.val h) else none

theorem toChar?_ofChar (c : Char) : (ofChar c).toChar? = some c := by
  have h : (ofChar c).val.isValidChar := c.valid
  rw [toChar?, dif_pos h]
  apply congrArg some
  apply Char.ext
  apply UInt32.toNat_inj.1
  rfl

instance : LE CodePoint := ⟨fun c d => c.val ≤ d.val⟩

instance : LT CodePoint := ⟨fun c d => c.val < d.val⟩

instance (c d : CodePoint) : Decidable (c ≤ d) := inferInstanceAs (Decidable (c.val ≤ d.val))

instance (c d : CodePoint) : Decidable (c < d) := inferInstanceAs (Decidable (c.val < d.val))

/-- The first half of a surrogate pair. -/
abbrev IsHighSurrogate (c : CodePoint) : Prop := 0xD800 ≤ c.val ∧ c.val ≤ 0xDBFF

/-- The second half of a surrogate pair. -/
abbrev IsLowSurrogate (c : CodePoint) : Prop := 0xDC00 ≤ c.val ∧ c.val ≤ 0xDFFF

/-- The code point that a high and a low surrogate stand for together. -/
def ofSurrogates (high low : CodePoint) : CodePoint :=
  ⟨0x10000 + (high.val - 0xD800) % 0x400 * 0x400 + (low.val - 0xDC00) % 0x400, by omega⟩

end CodePoint
end Descent
