import Mathlib.Data.List.Forall2
import WordCalc.Proofs.Lexeme.Splitting

/-! # Pieces of texts

A piece is a token with a spelling of it. A text that scans is a layout of pieces: they stand in
order, with blanks around them. What lexemes mean to the grammar depends on their pieces alone.
-/

namespace WordCalc

/-- A token and the characters that spell it. -/
@[ext] structure Piece where
  token : Token
  raw : Text
  spelling : token.IsSpelling raw

variable {ν : Type} {value : Base → Text → Option ν} {source rest text : Text} {position : Nat}
  {item : Lexeme} {items body : List Lexeme} {p p' : Piece} {pieces pieces' : List Piece}
  {terminals : List (Terminal ν)}

/-- The text consists of the pieces in order and of blanks, any number of them in front of each
piece and behind the last. -/
inductive LaysOut : List Piece → Text → Prop where
  | nil : LaysOut [] []
  | blank {c : Char} {pieces : List Piece} {text : Text} :
      Lexeme.isBlank c = true → LaysOut pieces text → LaysOut pieces (c :: text)
  | piece (piece : Piece) {pieces : List Piece} {text : Text} :
      LaysOut pieces text → LaysOut (piece :: pieces) (piece.raw ++ text)

def Lexeme.Holds (source : Text) (item : Lexeme) (piece : Piece) : Prop :=
  item.token = piece.token ∧ item.text? source = some piece.raw

def Text.withoutBlanks (text : Text) : Text := List.filter (fun c => !Lexeme.isBlank c) text

/-- Scanning finds lexemes of these pieces, and behind them the end of the text. -/
def Scans (source : Text) (pieces : List Piece) : Prop :=
  ∃ body, Lexeme.scan source = .ok (body ++ [⟨.endOfText, .one source.size⟩]) ∧
    List.Forall₂ (Lexeme.Holds source) body pieces

theorem Piece.token_ne_endOfText (piece : Piece) : piece.token ≠ .endOfText := by
  intro h
  exact Token.not_isSpelling_endOfText (h ▸ piece.spelling)

namespace Lexeme

theorem holds_iff : item.Holds source p ↔
    item.token = p.token ∧ item.span.select? source = some p.raw := by
  refine and_congr_right fun htoken => ?_
  rw [text?, if_neg (htoken ▸ p.token_ne_endOfText)]

theorem Holds.unique (h : item.Holds source p) (h' : item.Holds source p') : p = p' := by
  ext1
  · exact h.1.symm.trans h'.1
  · exact Option.some.inj (h.2.symm.trans h'.2)

end Lexeme

theorem Scans.unique (h : Scans source pieces) (h' : Scans source pieces') : pieces = pieces' := by
  obtain ⟨body, hscan, hholds⟩ := h
  obtain ⟨body', hscan', hholds'⟩ := h'
  obtain ⟨rfl, -⟩ := List.append_inj' (Except.ok.inj (hscan.symm.trans hscan')) rfl
  clear hscan hscan'
  induction hholds generalizing pieces' with
  | nil =>
    cases hholds'
    rfl
  | cons hpiece _ ih =>
    cases hholds' with
    | cons hpiece' hlater => rw [hpiece.unique hpiece', ih hlater]

def Piece.terminal? (value : Base → Text → Option ν) (piece : Piece) : Option (Terminal ν) :=
  piece.token.terminal? (value · piece.raw)

theorem Lexeme.Holds.terminal?_eq (h : item.Holds source p) :
    item.terminal? (valueAt value source) = p.terminal? value := by
  obtain ⟨htoken, hselect⟩ := holds_iff.mp h
  simp only [Lexeme.terminal?, valueAt, hselect, htoken, Option.bind_some, Piece.terminal?]

theorem writes_iff_of_holds (h : List.Forall₂ (Lexeme.Holds source) body pieces) :
    Writes (valueAt value source) body terminals ↔
      pieces.map (Piece.terminal? value) = terminals.map some := by
  have hmap : body.map (Lexeme.terminal? (valueAt value source)) =
      pieces.map (Piece.terminal? value) := by
    induction h with
    | nil => rfl
    | cons hpiece _ ih => rw [List.map_cons, List.map_cons, hpiece.terminal?_eq, ih]
  rw [Writes, hmap]

def HoldAt (position : Nat) (text : Text) (items : List Lexeme) (pieces : List Piece) : Prop :=
  ∀ before behind, Text.size before = position →
    List.Forall₂ (Lexeme.Holds (before ++ (text ++ behind))) items pieces

namespace HoldAt

theorem nil (position : Nat) : HoldAt position [] [] [] := fun _ _ _ => .nil

theorem blank {c : Char} (hblank : Lexeme.isBlank c = true)
    (h : HoldAt (position + 1) text items pieces) : HoldAt position (c :: text) items pieces := by
  intro before behind hbefore
  have hsize : Text.size (before ++ [c]) = position + 1 := by
    rw [Text.size_append, hbefore, Text.size_cons, utf8Size_of_isBlank hblank]
    rfl
  simpa using h (before ++ [c]) behind hsize

theorem piece (piece : Piece) (h : HoldAt (position + piece.raw.length) text items pieces) :
    HoldAt position (piece.raw ++ text)
      (⟨piece.token, ⟨position, position + (piece.raw.length - 1)⟩⟩ :: items)
      (piece :: pieces) := by
  rintro before behind rfl
  have hsize : Text.size (before ++ piece.raw) = Text.size before + piece.raw.length := by
    rw [Text.size_append, piece.spelling.size]
  have hlater := h (before ++ piece.raw) behind hsize
  simp only [List.append_assoc] at hlater ⊢
  exact .cons (Lexeme.holds_iff.mpr ⟨rfl, select?_spelling piece.spelling⟩) hlater

end HoldAt

theorem CoversBefore.exists_laysOut (h : CoversBefore rest position text items) :
    ∃ pieces, LaysOut pieces text ∧ HoldAt position text items pieces := by
  induction h with
  | nil position => exact ⟨[], .nil, .nil position⟩
  | blank hblank _ ih =>
    obtain ⟨pieces, hlays, hhold⟩ := ih
    exact ⟨pieces, .blank hblank hlays, hhold.blank hblank⟩
  | @lexeme position token raw text items hraw _ _ ih =>
    obtain ⟨pieces, hlays, hhold⟩ := ih
    exact ⟨⟨token, raw, hraw⟩ :: pieces, .piece ⟨token, raw, hraw⟩ hlays,
      hhold.piece ⟨token, raw, hraw⟩⟩

theorem scans_of_coversBefore (hsize : text.size ≤ maxSize) (h : CoversBefore [] 0 text items)
    (hhold : HoldAt 0 text items pieces) : Scans text pieces := by
  have hcovers : Covers 0 text (items ++ [⟨.endOfText, .one (0 + text.length)⟩]) :=
    covers_iff.mpr ⟨items, rfl, h⟩
  have hholds := hhold [] [] rfl
  rw [Nat.zero_add, ← h.size_eq_length] at hcovers
  rw [List.nil_append, List.append_nil] at hholds
  exact ⟨items, Lexeme.scan_eq_ok_iff.mpr ⟨hsize, hcovers⟩, hholds⟩

/-- A text that scans is a layout of the pieces that are found. -/
theorem exists_laysOut_of_scan {last : Lexeme}
    (h : Lexeme.scan source = .ok (body ++ [last])) :
    ∃ pieces, LaysOut pieces source ∧ Scans source pieces ∧
      List.Forall₂ (Lexeme.Holds source) body pieces := by
  obtain ⟨hsize, hcovers⟩ := Lexeme.scan_eq_ok_iff.mp h
  obtain ⟨items, heq, hitems⟩ := covers_iff.mp hcovers
  obtain ⟨rfl, -⟩ := List.append_inj' heq rfl
  obtain ⟨pieces, hlays, hhold⟩ := hitems.exists_laysOut
  exact ⟨pieces, hlays, scans_of_coversBefore hsize hitems hhold, by simpa using hhold [] [] rfl⟩

theorem LaysOut.withoutBlanks (h : LaysOut pieces text) : LaysOut pieces text.withoutBlanks := by
  unfold Text.withoutBlanks
  induction h with
  | nil => exact .nil
  | blank hblank _ ih => simpa [hblank] using ih
  | piece piece _ ih =>
    have hraw : List.filter (fun c => !Lexeme.isBlank c) piece.raw = piece.raw :=
      List.filter_eq_self.mpr fun c hc => by simp [(piece.spelling.shape.2 c hc).2]
    rw [List.filter_append, hraw]
    exact .piece piece ih

theorem Text.size_withoutBlanks_le (text : Text) : text.withoutBlanks.size ≤ text.size := by
  unfold withoutBlanks
  induction text with
  | nil => exact Nat.le_refl _
  | cons c text ih =>
    rw [List.filter_cons]
    split
    · exact Nat.add_le_add_left ih _
    · exact Nat.le_trans ih (Nat.le_add_left ..)

end WordCalc
