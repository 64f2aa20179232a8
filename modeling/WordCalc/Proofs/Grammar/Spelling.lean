import WordCalc.Calculation
import WordCalc.Proofs.Grammar.Reading
import WordCalc.Proofs.Lexeme.Scanning
import WordCalc.Proofs.Numeral.Value

/-! # Texts and terminals

What a text says to the grammar does not depend on positions. A text that is not too long
is an expression exactly if it spells the terminals of a chain within the nesting limit.
-/

namespace WordCalc

variable {ν : Type} {value : Base → Text → Option ν} {source text rest before raw : Text}
  {position : Nat} {token : Token} {items body : List Lexeme} {terminals : List (Terminal ν)}

/-- The text consists of blanks and of spellings of the terminals, each as long as it can be. -/
inductive Spells (value : Base → Text → Option ν) : Text → List (Terminal ν) → Prop where
  | nil : Spells value [] []
  | blank {c : Char} {text : Text} {terminals : List (Terminal ν)} :
      Lexeme.isBlank c = true → Spells value text terminals → Spells value (c :: text) terminals
  | spelling {token : Token} {raw rest : Text} {t : Terminal ν} {terminals : List (Terminal ν)} :
      token.IsSpelling raw → token.Ends raw rest → token.terminal? (value · raw) = some t →
      Spells value rest terminals → Spells value (raw ++ rest) (t :: terminals)

def valueAt (value : Base → Text → Option ν) (source : Text) (base : Base) (span : Span) :
    Option ν :=
  (span.select? source).bind (value base)

theorem valueAt_word? : valueAt Base.word? source = wordAt source := by
  funext base span
  unfold valueAt wordAt Expr.literalWord Base.word?
  cases span.select? source with
  | none => rfl
  | some raw =>
    simp only [Option.bind_some]
    cases base.readLiteral raw with
    | ok => rfl
    | error fault => cases fault <;> rfl

theorem Token.not_isSpelling_endOfText : ¬Token.endOfText.IsSpelling raw := by
  have hsymbols : ∀ x ∈ Token.symbols, x.2 ≠ Token.endOfText := by decide
  exact fun h => hsymbols _ h rfl

theorem utf8Size_of_isBlank {c : Char} (h : Lexeme.isBlank c = true) : c.utf8Size = 1 := by
  rcases (by simpa [Lexeme.isBlank] using h : c = ' ' ∨ c = '\t') with rfl | rfl <;> rfl

theorem select?_spelling (h : token.IsSpelling raw) :
    (⟨before.size, before.size + (raw.length - 1)⟩ : Span).select? (before ++ (raw ++ rest)) =
      some raw := by
  have hpos := List.length_pos_iff.mpr h.shape.1
  refine Span.select?_eq_some_iff.mpr ⟨before, rest, by simp, rfl, ?_⟩
  rw [h.size]
  change _ = before.size + (raw.length - 1) + 1
  omega

theorem terminal?_spelling (h : token.IsSpelling raw) :
    (⟨token, ⟨before.size, before.size + (raw.length - 1)⟩⟩ : Lexeme).terminal?
      (valueAt value (before ++ (raw ++ rest))) = token.terminal? (value · raw) := by
  unfold Lexeme.terminal? valueAt
  simp only [select?_spelling h, Option.bind_some]

theorem Covers.spells (h : Covers position text items) (before : Text) {last : Lexeme}
    {later : List Lexeme} (hposition : before.size = position)
    (hitems : items = body ++ last :: later) (hlast : last.token = .endOfText)
    (hw : Writes (valueAt value (before ++ text)) body terminals) :
    Spells value text terminals := by
  induction h generalizing before body terminals with
  | nil =>
    cases body with
    | nil =>
      obtain rfl : terminals = [] := by simpa [Writes] using hw
      exact .nil
    | cons item body => simp at hitems
  | @blank _ c _ _ hc _ ih =>
    refine .blank hc (ih (before ++ [c]) ?_ hitems (by simpa using hw))
    rw [Text.size_concat before (utf8Size_of_isBlank hc), hposition]
  | @lexeme _ token raw _ _ hraw hend _ ih =>
    cases body with
    | nil =>
      obtain ⟨rfl, -⟩ := List.cons.inj hitems
      obtain rfl : token = .endOfText := hlast
      exact absurd hraw Token.not_isSpelling_endOfText
    | cons item body =>
      obtain ⟨rfl, hbody⟩ := List.cons.inj hitems
      cases terminals with
      | nil => simp [Writes] at hw
      | cons t terminals =>
        obtain ⟨_, _, heq, ht, hrest⟩ := writes_cons_iff.mp hw
        obtain ⟨rfl, rfl⟩ := List.cons.inj heq
        subst hposition
        rw [terminal?_spelling hraw] at ht
        refine .spelling hraw hend ht (ih (before ++ raw) ?_ hbody (by simpa using hrest))
        rw [Text.size_append, hraw.size]

theorem Spells.covers (h : Spells value text terminals) (before : Text) :
    ∃ body last, Covers before.size text (body ++ [last]) ∧ last.token = .endOfText ∧
      Writes (valueAt value (before ++ text)) body terminals := by
  induction h generalizing before with
  | nil => exact ⟨[], _, .nil _, rfl, by simp⟩
  | @blank c text _ hc _ ih =>
    obtain ⟨body, last, hcovers, hlast, hw⟩ := ih (before ++ [c])
    rw [Text.size_concat before (utf8Size_of_isBlank hc)] at hcovers
    exact ⟨body, last, .blank hc hcovers, hlast, by simpa using hw⟩
  | @spelling token raw rest t _ hraw hend ht _ ih =>
    obtain ⟨body, last, hcovers, hlast, hw⟩ := ih (before ++ raw)
    rw [Text.size_append, hraw.size] at hcovers
    refine ⟨_ :: body, last, .lexeme hraw hend hcovers, hlast, .cons ?_ (by simpa using hw)⟩
    exact (terminal?_spelling hraw).trans ht

/-- Scanning finds the terminals that a text spells. -/
theorem spells_iff : source.size ≤ maxSize ∧ Spells value source terminals ↔
    ∃ body last, Lexeme.scan source = .ok (body ++ [last]) ∧ last.token = .endOfText ∧
      Writes (valueAt value source) body terminals := by
  constructor
  · rintro ⟨hsize, h⟩
    obtain ⟨body, last, hcovers, hlast, hw⟩ := h.covers []
    exact ⟨body, last, Lexeme.scan_eq_ok_iff.mpr ⟨hsize, hcovers⟩, hlast, hw⟩
  · rintro ⟨body, last, hscan, hlast, hw⟩
    obtain ⟨hsize, hcovers⟩ := Lexeme.scan_eq_ok_iff.mp hscan
    exact ⟨hsize, hcovers.spells [] rfl rfl hlast hw⟩

theorem Spells.unique {terminals' : List (Terminal ν)} (h : Spells value text terminals)
    (h' : Spells value text terminals') : terminals = terminals' := by
  obtain ⟨body, last, hcovers, hlast, hw⟩ := h.covers []
  obtain ⟨body', last', hcovers', hlast', hw'⟩ := h'.covers []
  have hitems := (Lexeme.scanFrom_of_covers hcovers).symm.trans (Lexeme.scanFrom_of_covers hcovers')
  obtain ⟨rfl, -⟩ := List.append_inj' (Except.ok.inj hitems) rfl
  exact (List.map_inj_right fun _ _ => Option.some.inj).mp (hw.symm.trans hw')

/-- Texts of expressions are those that spell a chain within the limits. -/
theorem Expr.ofText_eq_ok_iff {e : Expr} : Expr.ofText source = .ok e ↔
    source.size ≤ maxSize ∧ ∃ c : Chain Word, Spells Base.word? source c.terminals ∧
      c.nesting ≤ maxNesting ∧ c.tree = e := by
  constructor
  · intro h
    obtain ⟨items, hscan, hread⟩ := bind_eq_ok_iff.mp h
    obtain ⟨c, ⟨body, last, rest, rfl, hlast, hw⟩, hnesting, htree⟩ := exists_derives hread
    obtain ⟨hsize, hcovers⟩ := Lexeme.scan_eq_ok_iff.mp hscan
    rw [← valueAt_word?] at hw
    exact ⟨hsize, c, hcovers.spells [] rfl rfl hlast hw, hnesting, htree⟩
  · rintro ⟨hsize, c, hspells, hnesting, rfl⟩
    obtain ⟨body, last, hscan, hlast, hw⟩ := spells_iff.mp ⟨hsize, hspells⟩
    rw [valueAt_word?] at hw
    rw [ofText, hscan, ok_bind]
    exact ofLexemes_of_derives ⟨body, last, [], rfl, hlast, hw⟩ hnesting

end WordCalc
