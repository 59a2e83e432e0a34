import Descent.Proofs.Json.Completeness
import Descent.Proofs.Json.Written

/-!
# Reading back what is written

`Json.render` writes a value over several lines, and the parser reads the text back as that value,
however the value is nested: by induction on the value, for every level of indentation and for all
whitespace around it.
-/

namespace Descent
namespace Json

open Descent.Parser

variable {ρ : Type → Type} {rules : Rules ρ} {verbose : Bool} {self : ρ Json}

/-- The values that are read back as they are: integers that can be read and written, no floating
numbers, objects with distinct keys, and no surrogates in a text that an escape would pair. -/
inductive Encodable : Json → Prop where
  | null : Encodable .null
  | bool (b : Bool) : Encodable (.bool b)
  | int {i : Int} (h : (Text.ofNat i.natAbs).length ≤ Numeral.digitLimit) :
      Encodable (.number (.int i))
  | string {s : Text} (h : Unpaired s) : Encodable (.string s)
  | array {vs : List Json} (h : ∀ v ∈ vs, Encodable v) : Encodable (.array vs)
  | object {ms : List (Text × Json)} (hkeys : (ms.map (·.1)).Nodup)
      (hkey : ∀ m ∈ ms, Unpaired m.1) (h : ∀ m ∈ ms, Encodable m.2) : Encodable (.object ms)

/-! ### Lists of items -/

theorem renderItems_eq (level : Nat) (vs : List Json) :
    renderItems level vs =
      Text.joinWith "," (vs.map fun v => newline level ++ renderAt level v) := by
  induction vs with
  | nil => rfl
  | cons v vs ih =>
    cases vs with
    | nil => simp [renderItems, Text.joinWith]
    | cons w vs =>
      rw [renderItems, ih]
      · simp [Text.joinWith]
      · exact nofun

theorem renderMembers_eq (level : Nat) (ms : List (Text × Json)) :
    renderMembers level ms = Text.joinWith "," (ms.map fun m =>
      newline level ++ renderString m.1 ++ ": " ++ renderAt level m.2) := by
  induction ms with
  | nil => rfl
  | cons m ms ih =>
    cases ms with
    | nil => simp [renderMembers, Text.joinWith]
    | cons m' ms =>
      rw [renderMembers, ih]
      · simp [Text.joinWith]
      · exact nofun

/-- Words joined by commas, where the last may have more behind it. -/
theorem sepBy_joinWith {α : Type} {L : Text → α → Prop} {f : α → Text} {w : Text} {xs : List α}
    (hne : xs ≠ []) (h : ∀ x ∈ xs, L (f x) x ∧ L (f x ++ w) x) :
    SepBy L ',' (Text.joinWith "," (xs.map f) ++ w) xs := by
  induction xs with
  | nil => exact absurd rfl hne
  | cons x xs ih =>
    obtain ⟨hx, hxs⟩ := List.forall_mem_cons.1 h
    cases xs with
    | nil =>
      have htext : Text.joinWith "," ([x].map f) ++ w = f x ++ w := by simp [Text.joinWith]
      rw [htext]
      exact .one hx.2
    | cons y xs =>
      have htext : Text.joinWith "," ((x :: y :: xs).map f) ++ w =
          f x ++ (',' : CodePoint) :: (Text.joinWith "," ((y :: xs).map f) ++ w) := by
        simp [Text.joinWith]; rfl
      rw [htext]
      exact .cons hx.1 (ih (List.cons_ne_nil y xs) hxs)

theorem areBlank_newline (level : Nat) : AreBlank (newline level) :=
  List.forall_mem_cons.2 ⟨by decide, fun _ hc => by rw [List.eq_of_mem_replicate hc]; decide⟩

/-! ### Values -/

/-- `s` is `v` as it is written at some level, with whitespace on both sides. -/
def Laid (s : Text) (v : Json) : Prop :=
  ∃ level w₁ w₂, AreBlank w₁ ∧ AreBlank w₂ ∧ s = w₁ ++ (renderAt level v ++ w₂)

/-- `s` is the entry `m` as it is written at some level, with whitespace on both sides. -/
def LaidMember (s : Text) (m : Text × Json) : Prop :=
  ∃ w r, AreBlank w ∧ Laid r m.2 ∧ s = w ++ (renderString m.1 ++ (':' : CodePoint) :: r)

/-- Wherever `v` is written, it is taken as it is if nothing behind it goes on with it. -/
def TakesLaid (rules : Rules ρ) (verbose : Bool) (self : ρ Json) (v : Json) : Prop :=
  ∀ s u, Laid s v → Stops elementGoesOn u →
    (Parser.ref self).Answers rules verbose (s ++ u) (.took v s)

theorem ofInt_head (i : Int) : ∃ y r, Text.ofInt i = y :: r ∧ (y = '-' ∨ y.IsDigit) := by
  cases i with
  | negSucc n => exact ⟨_, _, rfl, .inl rfl⟩
  | ofNat n =>
    obtain ⟨hne, hds⟩ := (isInteger_ofNat n).areDigits
    obtain ⟨y, r, hr⟩ := List.exists_cons_of_ne_nil hne
    exact ⟨y, r, hr, .inr (hds y (by rw [hr]; exact List.mem_cons_self))⟩

theorem renderAt_head {v : Json} (h : v.Encodable) (level : Nat) :
    ∃ y r, renderAt level v = y :: r ∧ y ∉ blanks := by
  cases h with
  | null => exact ⟨_, _, rfl, by decide⟩
  | bool b => cases b <;> exact ⟨_, _, rfl, by decide⟩
  | @int i =>
    obtain ⟨y, r, hr, hy⟩ := ofInt_head i
    refine ⟨y, r, hr, fun hblank => ?_⟩
    exact (by decide : ∀ c ∈ blanks, ¬ (c = '-' ∨ c.IsDigit)) y hblank hy
  | string => exact ⟨_, _, rfl, by decide⟩
  | @array vs => cases vs <;> exact ⟨_, _, rfl, by decide⟩
  | @object ms => cases ms <;> exact ⟨_, _, rfl, by decide⟩

theorem laid_line (level : Nat) (v : Json) {w : Text} (hw : AreBlank w) :
    Laid (newline level ++ renderAt level v ++ w) v :=
  ⟨level, newline level, w, areBlank_newline level, hw, List.append_assoc ..⟩

theorem laidMember_line (level : Nat) (m : Text × Json) {w : Text} (hw : AreBlank w) :
    LaidMember (newline level ++ renderString m.1 ++ ": " ++ renderAt level m.2 ++ w) m := by
  have hspace : AreBlank [(' ' : CodePoint)] := List.forall_mem_singleton.2 (by decide)
  refine ⟨newline level, [(' ' : CodePoint)] ++ (renderAt level m.2 ++ w), areBlank_newline level,
    ⟨level, _, w, hspace, hw, rfl⟩, ?_⟩
  simp only [List.append_assoc]
  rfl

/-- Items on lines of their own are separated words, the last one with the next line behind it. -/
theorem bracketed_lines {α : Type} {L : Text → α → Prop} {f : α → Text} {w : Text} {xs : List α}
    (opening closing : CodePoint) (hw : AreBlank w) (hne : xs ≠ [])
    (h : ∀ x ∈ xs, ∀ w, AreBlank w → L (f x ++ w) x) :
    Bracketed L opening closing
      (opening :: (Text.joinWith "," (xs.map f) ++ w ++ [closing])) xs := by
  refine .items (sepBy_joinWith hne fun x hx => ⟨?_, h x hx w hw⟩)
  rw [← List.append_nil (f x)]
  exact h x hx [] nofun

theorem element_laid {v : Json} (h : v.Encodable)
    (hvalue : ∀ level u, Stops goesOn u →
      (Grammar.value self).Answers rules verbose (renderAt level v ++ u)
        (.took v (renderAt level v)))
    {s u : Text} (hs : Laid s v) (hu : Stops elementGoesOn u) :
    (Grammar.element self).Answers rules verbose (s ++ u) (.took v s) := by
  obtain ⟨level, w₁, w₂, hw₁, hw₂, rfl⟩ := hs
  obtain ⟨y, r, hr, hy⟩ := renderAt_head h level
  have hstart : Stops (· ∈ blanks) (renderAt level v ++ (w₂ ++ u)) := by
    rw [hr]
    exact Stops.cons_iff.2 (decide_eq_false hy)
  have hblank : Stops (· ∈ blanks) u := fun c hc => (Bool.or_eq_false_iff.1 (hu c hc)).2
  have hnumber : Stops goesOn (w₂ ++ u) := by
    cases w₂ with
    | nil => exact fun c hc => (Bool.or_eq_false_iff.1 (hu c hc)).1
    | cons c w₂ =>
      refine Stops.cons_iff.2 ?_
      exact (by decide : ∀ c ∈ blanks, goesOn c = false) c (hw₂ c List.mem_cons_self)
  rw [List.append_assoc, List.append_assoc]
  exact Answers.between (.whitespaces hw₁ hstart) (hvalue level _ hnumber)
    (.whitespaces hw₂ hblank)

theorem member_laid {m : Text × Json} (hkey : Unpaired m.1)
    (hv : TakesLaid rules verbose self m.2) {s u : Text} (hs : LaidMember s m)
    (hu : Stops elementGoesOn u) :
    (Grammar.member self).Answers rules verbose (s ++ u) (.took m s) := by
  obtain ⟨w, r, hw, hr, rfl⟩ := hs
  have hcolon : (char ':' : Parser ρ CodePoint).Answers rules verbose
      ((':' : CodePoint) :: (r ++ u)) (.took ':' [(':' : CodePoint)]) := .char ':' _
  have hstring : (Grammar.stringLiteral (ρ := ρ)).Answers rules verbose _ _ :=
    stringLiteral_answers (isString_renderString hkey) ([] ++ (':' : CodePoint) :: (r ++ u))
  have hkeyText : (between whitespaces whitespaces Grammar.stringLiteral).Answers rules verbose
      (w ++ (renderString m.1 ++ ([] ++ (':' : CodePoint) :: (r ++ u))))
      (.took m.1 (w ++ (renderString m.1 ++ []))) :=
    Answers.between (.whitespaces hw (Stops.cons_iff.2 (by decide))) hstring
      (.whitespaces nofun (Stops.cons_iff.2 (by decide)))
  rw [List.append_nil, List.nil_append, ← List.append_assoc] at hkeyText
  have hrest : ((char ':').keepRight ((Parser.ref self).map fun v => (m.1, v))).Answers rules
      verbose ((':' : CodePoint) :: (r ++ u)) (.took m ((':' : CodePoint) :: r)) :=
    hcolon.keepRight (s := [(':' : CodePoint)]) ((hv r u hr hu).map _)
  have hmember := hkeyText.bind (k := fun key =>
    (char ':').keepRight ((Parser.ref self).map fun v => (key, v))) hrest
  simp only [Answer.behind, List.append_assoc] at hmember ⊢
  exact hmember

theorem object_renderAt {ms : List (Text × Json)} (hkeys : (ms.map (·.1)).Nodup)
    (hkey : ∀ m ∈ ms, Unpaired m.1) (h : ∀ m ∈ ms, TakesLaid rules verbose self m.2)
    (level : Nat) (u : Text) :
    (Grammar.object self).Answers rules verbose (renderAt level (.object ms) ++ u)
      (.took ms (renderAt level (.object ms))) := by
  have hwords : Bracketed (fun s m => m ∈ ms ∧ LaidMember s m) '{' '}'
      (renderAt level (.object ms)) ms := by
    cases ms with
    | nil => exact .blank (w := []) nofun
    | cons m ms =>
      have hlines := bracketed_lines (L := fun s x => x ∈ m :: ms ∧ LaidMember s x) '{' '}'
        (areBlank_newline level) (List.cons_ne_nil m ms)
        fun x hx w hw => ⟨hx, laidMember_line (level + 1) x hw⟩
      rw [← renderMembers_eq] at hlines
      exact hlines
  have hentries := bracketed_answers (p := Grammar.member self) hwords (by decide)
    (fun w hw => member_misses_closing hw u)
    (fun _ r m x _ _ hm hstop => member_laid (hkey m hm.1) (h m hm.1) hm.2 hstop) (by decide)
  have hobject := hentries.map Dictionary.ofEntries
  rw [Dictionary.ofEntries_of_nodup hkeys] at hobject
  exact hobject

section
variable (hself : rules _ self = Grammar.element self)
include hself

theorem takesLaid_of_value {v : Json} (h : v.Encodable)
    (hvalue : ∀ level u, Stops goesOn u →
      (Grammar.value self).Answers rules verbose (renderAt level v ++ u)
        (.took v (renderAt level v))) : TakesLaid rules verbose self v :=
  fun _ _ hs hu => .ref (hself ▸ element_laid h hvalue hs hu)

theorem array_renderAt {vs : List Json} (h : ∀ v ∈ vs, TakesLaid rules verbose self v)
    (level : Nat) (u : Text) :
    (Grammar.array self).Answers rules verbose (renderAt level (.array vs) ++ u)
      (.took vs (renderAt level (.array vs))) := by
  have hwords :
      Bracketed (fun s v => v ∈ vs ∧ Laid s v) '[' ']' (renderAt level (.array vs)) vs := by
    cases vs with
    | nil => exact .blank (w := []) nofun
    | cons v vs =>
      have hlines := bracketed_lines (L := fun s x => x ∈ v :: vs ∧ Laid s x) '[' ']'
        (areBlank_newline level) (List.cons_ne_nil v vs)
        fun x hx w hw => ⟨hx, laid_line (level + 1) x hw⟩
      rw [← renderItems_eq] at hlines
      exact hlines
  exact bracketed_answers hwords (by decide)
    (fun w hw => Misses.ref (hself ▸ element_misses_closing hw u))
    (fun _ r v x _ _ hv hstop => h v hv.1 r x hv.2 hstop) (by decide)

theorem value_renderAt {v : Json} (h : v.Encodable) (level : Nat) {u : Text}
    (hu : Stops goesOn u) :
    (Grammar.value self).Answers rules verbose (renderAt level v ++ u)
      (.took v (renderAt level v)) := by
  induction h generalizing level u with
  | null => exact value_null u
  | bool b =>
    cases b with
    | true => exact value_true u
    | false => exact value_false u
  | @int i hlen =>
    obtain ⟨y, r, hr, hy⟩ := ofInt_head i
    have hnumber : (Grammar.numberLiteral (ρ := ρ)).Answers rules verbose _ _ :=
      numberLiteral_ofInt hlen hu
    show (Grammar.value self).Answers rules verbose (Text.ofInt i ++ u) (.took _ (Text.ofInt i))
    rw [hr] at hnumber ⊢
    exact value_number hy hnumber
  | @string s hs =>
    have hstring : (Grammar.stringLiteral (ρ := ρ)).Answers rules verbose _ _ :=
      stringLiteral_answers (isString_renderString hs) u
    exact value_answers (y := '"') 2 rfl rfl (by decide) (hstring.map _)
  | @array vs hvs ih =>
    have harray : (Grammar.array self).Answers rules verbose _ _ :=
      array_renderAt hself (fun v hv =>
        takesLaid_of_value hself (hvs v hv) fun level u hu => ih v hv level hu) level u
    cases vs <;> exact value_answers (y := '[') 4 rfl rfl (by decide) (harray.map _)
  | @object ms hkeys hkey hms ih =>
    have hobject : (Grammar.object self).Answers rules verbose _ _ :=
      object_renderAt hkeys hkey (fun m hm =>
        takesLaid_of_value hself (hms m hm) fun level u hu => ih m hm level hu) level u
    cases ms <;> exact value_answers (y := '{') 5 rfl rfl (by decide) (hobject.map _)

end

/-! ### The grammar as a whole -/

/-- What is written is read back: with depth enough the parser takes the whole text, and so does a
reading whose depth suffices. -/
theorem parser_reads_render {v : Json} (h : v.Encodable) (verbose : Bool) (name : Text) :
    ∃ r d, Reaches Json.rules verbose parser (.start v.render name) r ∧
      r.result = .success v d ∧ d.AtEnd ∧
      (¬ (parser.parse Json.rules verbose (.start v.render name)).TooDeep →
        (parser.readText Json.rules verbose v.render name true).result = .ok v) := by
  have hlaid : Laid v.render v := ⟨0, [], [], nofun, nofun, (List.append_nil _).symm⟩
  have helement : parser.Answers Json.rules verbose (v.render ++ []) _ :=
    element_laid h (fun level _ hu => value_renderAt rfl h level hu) hlaid Stops.nil
  rw [List.append_nil] at helement
  have hunread : (Cursor.start v.render name).unread = v.render := Cursor.unread_start _ _
  obtain ⟨r, hr, hresult⟩ := helement.reaches hunread
  refine ⟨r, _, hr, hresult, ?_, helement.readText⟩
  rw [Cursor.atEnd_iff_unread_eq_nil]
  exact Cursor.unread_skip (by rw [hunread, List.append_nil])

theorem parser_reads_render_object :
    let s : Text := [⟨0xD83D, by decide⟩, ⟨0x1F600, by decide⟩]
    let v : Json := .object [("a\"\n", .array [.number (.int (-12)), .null, .string s]),
      ("b", .object []), ([], .bool true)]
    v.Encodable ∧ (parser.readText Json.rules false v.render [] true).result = .ok v := by
  intro s v
  have hs : Unpaired s := by decide
  have hitems : ∀ w ∈ [Json.number (.int (-12)), .null, .string s], w.Encodable := by
    simp only [List.forall_mem_cons]
    exact ⟨.int (by decide), .null, .string hs, nofun⟩
  have hv : v.Encodable := by
    refine .object (by decide) ?_ ?_
    · simp only [List.forall_mem_cons]
      exact ⟨by decide, by decide, by decide, nofun⟩
    · simp only [List.forall_mem_cons]
      exact ⟨.array hitems, .object List.nodup_nil nofun nofun, .bool true, nofun⟩
  have hdeep : ¬ (parser.parse Json.rules false (.start v.render [])).TooDeep := by
    decide +kernel
  obtain ⟨-, -, -, -, -, hread⟩ := parser_reads_render hv false []
  exact ⟨hv, hread hdeep⟩

end Json
end Descent
