import Mathlib.Data.List.Chain
import WordCalc.Proofs.Grammar.Spelling
import WordCalc.Proofs.Text.Encoding

/-! # Tilings

A tiling of a text is a list of lexemes at their places in it, in order and apart from each
other, with blanks in between, in which no literal stops short of a digit. Scanning finds a
tiling exactly if there is one, and there is at most one.
-/

namespace WordCalc

variable {source before text raw rest : Text} {start : Nat} {token : Token} {item : Lexeme}
  {body items later : List Lexeme}

def Span.Holds (span : Span) (position : Nat) : Prop :=
  span.first ≤ position ∧ position ≤ span.last

namespace Lexeme

/-- The lexeme spells its token at its place in the text, and no digit follows a literal. -/
structure StandsIn (source : Text) (item : Lexeme) : Prop where
  token_ne : item.token ≠ .endOfText
  first_le_last : item.span.first ≤ item.span.last
  last_lt_size : item.span.last < source.size
  spelling : ∃ raw, item.span.select? source = some raw ∧ item.token.IsSpelling raw
  maximal : ∀ base, item.token = .literal base →
    ∀ b ∈ source.bytes[item.span.last + 1]?, base.isDigit (.ofUInt8 b) = false

/-- From `start` on, the text consists of the lexemes and of blanks. -/
structure Tiles (source : Text) (start : Nat) (body : List Lexeme) : Prop where
  standsIn : ∀ item ∈ body, StandsIn source item
  start_le : ∀ item ∈ body, start ≤ item.span.first
  ordered : body.IsChain (·.span.last < ·.span.first)
  blank : ∀ position, start ≤ position → (∀ item ∈ body, ¬item.span.Holds position) →
    ∀ b ∈ source.bytes[position]?, isBlank (.ofUInt8 b) = true

theorem head?_bytes_isBlank (text : Text) :
    (∀ b ∈ text.bytes.head?, isBlank (.ofUInt8 b) = true) ↔
      ∀ c ∈ text.head?, isBlank c = true := by
  have hsmall : ∀ c, isBlank c = true → c.toNat < 128 := by
    intro c hc
    rcases (by simpa [isBlank] using hc : c = ' ' ∨ c = '\t') with rfl | rfl <;> decide
  exact Text.forall_head?_bytes hsmall text true

theorem head?_bytes_isDigit (base : Base) (text : Text) :
    (∀ b ∈ text.bytes.head?, base.isDigit (.ofUInt8 b) = false) ↔
      ∀ c ∈ text.head?, base.isDigit c = false := by
  have hsmall : ∀ c, base.isDigit c = true → c.toNat < 128 := fun c hc =>
    Nat.lt_trans (Base.toNat_lt_of_isDigit hc) (by decide)
  exact Text.forall_head?_bytes hsmall text false

theorem standsIn_append (hraw : token.IsSpelling raw)
    (hend : ∀ base, token = .literal base → ∀ c ∈ rest.head?, base.isDigit c = false) :
    StandsIn (before ++ (raw ++ rest))
      ⟨token, ⟨before.size, before.size + (raw.length - 1)⟩⟩ := by
  have hpos := List.length_pos_iff.mpr hraw.shape.1
  refine ⟨?_, Nat.le_add_right .., ?_, ⟨raw, select?_spelling hraw, hraw⟩, ?_⟩
  · rintro rfl
    exact Token.not_isSpelling_endOfText hraw
  · change before.size + (raw.length - 1) < _
    rw [Text.size_append, Text.size_append, hraw.size]
    omega
  · intro base hbase
    have hnext : before.size + (raw.length - 1) + 1 = (before ++ raw).size := by
      rw [Text.size_append, hraw.size]
      omega
    rw [hnext, ← List.append_assoc, Text.getElem?_bytes_append]
    exact (head?_bytes_isDigit base rest).mpr (hend base hbase)

theorem StandsIn.exists_append (h : StandsIn (before ++ text) item)
    (hfirst : item.span.first = before.size) : ∃ raw rest, text = raw ++ rest ∧
      item.span.last = before.size + (raw.length - 1) ∧ item.token.IsSpelling raw ∧
      ∀ base, item.token = .literal base → ∀ c ∈ rest.head?, base.isDigit c = false := by
  obtain ⟨raw, hselect, hraw⟩ := h.spelling
  obtain ⟨before', rest, hsplit, hsize, hlast⟩ := Span.select?_eq_some_iff.mp hselect
  rw [List.append_assoc] at hsplit
  obtain ⟨rfl, rfl⟩ := Text.append_inj_of_size hsplit (hfirst.symm.trans hsize.symm)
  have hpos := List.length_pos_iff.mpr hraw.shape.1
  refine ⟨raw, rest, rfl, ?_, hraw, ?_⟩
  · rw [hraw.size] at hlast
    omega
  · intro base hbase
    have hmaximal := h.maximal base hbase
    rw [← hlast, ← Text.size_append, ← List.append_assoc, Text.getElem?_bytes_append] at hmaximal
    exact (head?_bytes_isDigit base rest).mp hmaximal

theorem lt_first_of_isChain (hspans : ∀ next ∈ later, next.span.first ≤ next.span.last)
    (h : (item :: later).IsChain (·.span.last < ·.span.first)) :
    ∀ next ∈ later, item.span.last < next.span.first := by
  induction later generalizing item with
  | nil => simp
  | cons head later ih =>
    obtain ⟨hlt, hchain⟩ := List.isChain_cons_cons.mp h
    intro next hnext
    rcases List.mem_cons.mp hnext with rfl | hnext
    · exact hlt
    · calc item.span.last < head.span.first := hlt
        _ ≤ head.span.last := hspans head List.mem_cons_self
        _ < next.span.first :=
          ih (fun next hn => hspans next (List.mem_cons_of_mem _ hn)) hchain next hnext

theorem Tiles.lt_first (h : Tiles source start (item :: later)) :
    ∀ next ∈ later, item.span.last < next.span.first :=
  lt_first_of_isChain (fun next hn => (h.standsIn next (List.mem_cons_of_mem _ hn)).first_le_last)
    h.ordered

theorem tiles_nil (h : source.size ≤ start) : Tiles source start [] := by
  refine ⟨by simp, by simp, .nil, ?_⟩
  intro position hle _ b hb
  rw [List.getElem?_eq_none (by rw [Text.length_bytes]; omega)] at hb
  cases hb

theorem tiles_cons_iff (hfirst : item.span.first = start) :
    Tiles source start (item :: later) ↔
      StandsIn source item ∧ Tiles source (item.span.last + 1) later := by
  constructor
  · intro h
    have hitem := h.standsIn item List.mem_cons_self
    have hspan := hitem.first_le_last
    refine ⟨hitem, fun next hn => h.standsIn next (List.mem_cons_of_mem _ hn), h.lt_first,
      h.ordered.tail, ?_⟩
    intro position hle hfree
    refine h.blank position (by omega) fun next hn hholds => ?_
    rcases List.mem_cons.mp hn with rfl | hn
    · exact Nat.not_le_of_lt hle hholds.2
    · exact hfree next hn hholds
  · rintro ⟨hitem, h⟩
    have hspan := hitem.first_le_last
    refine ⟨List.forall_mem_cons.mpr ⟨hitem, h.standsIn⟩, ?_, ?_, ?_⟩
    · refine List.forall_mem_cons.mpr ⟨Nat.le_of_eq hfirst.symm, fun next hn => ?_⟩
      have hnext := h.start_le next hn
      omega
    · refine List.isChain_cons.mpr ⟨fun next hn => ?_, h.ordered⟩
      exact h.start_le next (List.mem_of_mem_head? hn)
    · intro position hle hfree
      have hbehind : item.span.last + 1 ≤ position :=
        Nat.lt_of_not_le fun hlast => hfree item List.mem_cons_self ⟨by omega, hlast⟩
      exact h.blank position hbehind fun next hn => hfree next (List.mem_cons_of_mem _ hn)

theorem tiles_succ_iff (hlt : ∀ item ∈ body, start < item.span.first) :
    Tiles source start body ↔ (∀ b ∈ source.bytes[start]?, isBlank (.ofUInt8 b) = true) ∧
      Tiles source (start + 1) body := by
  constructor
  · intro h
    refine ⟨?_, h.standsIn, hlt, h.ordered, ?_⟩
    · apply h.blank start (Nat.le_refl _)
      intro item hi hholds
      exact Nat.not_le_of_lt (hlt item hi) hholds.1
    · intro position hle
      exact h.blank position (Nat.le_of_succ_le hle)
  · rintro ⟨hblank, h⟩
    refine ⟨h.standsIn, fun item hi => Nat.le_of_lt (hlt item hi), h.ordered, ?_⟩
    intro position hle hfree
    rcases Nat.eq_or_lt_of_le hle with rfl | hlt
    · exact hblank
    · exact h.blank position hlt hfree

theorem Tiles.head_cases (h : Tiles source start body) :
    (∃ item later, body = item :: later ∧ item.span.first = start) ∨
      ∀ item ∈ body, start < item.span.first := by
  cases body with
  | nil => exact Or.inr (by simp)
  | cons item later =>
    have hle := h.start_le item List.mem_cons_self
    rcases Nat.eq_or_lt_of_le hle with heq | hlt
    · exact Or.inl ⟨item, later, rfl, heq.symm⟩
    · refine Or.inr (List.forall_mem_cons.mpr ⟨hlt, fun next hn => ?_⟩)
      have hspan := (h.standsIn item List.mem_cons_self).first_le_last
      have hnext := h.lt_first next hn
      omega

theorem Tiles.eq_nil (h : Tiles source source.size body) : body = [] := by
  cases body with
  | nil => rfl
  | cons item later =>
    have hitem := h.standsIn item List.mem_cons_self
    have hspan := hitem.first_le_last
    have hlast := hitem.last_lt_size
    have hfirst := h.start_le item List.mem_cons_self
    omega

end Lexeme

theorem Token.IsSpelling.ofLetter?_head? (h : token.IsSpelling raw) :
    ∀ c ∈ raw.head?, Base.ofLetter? c = none := by
  cases token with
  | literal base =>
    obtain ⟨c, later, rfl, hc⟩ := exists_digit_of_isNumeral h
    simpa using Base.ofLetter?_of_isDigit_decimal hc
  | _ => exact fun c hc => ((symbol_shape _ h).2.1 c hc).2

theorem Covers.ofLetter?_head? (h : Covers start text items) :
    ∀ c ∈ text.head?, Base.ofLetter? c = none := by
  cases h with
  | nil => simp
  | blank hblank _ => simpa using Token.ofLetter?_of_isBlank hblank
  | lexeme hraw _ _ =>
    obtain ⟨c, raw, rfl⟩ := List.exists_cons_of_ne_nil hraw.shape.1
    exact hraw.ofLetter?_head?

theorem Covers.ends (h : Covers start rest items)
    (hdigit : ∀ base, token = .literal base → ∀ c ∈ rest.head?, base.isDigit c = false) :
    token.Ends raw rest := by
  cases token with
  | literal base =>
    refine ⟨hdigit base rfl, ?_⟩
    rintro - - ⟨letter, base', digit, later, rfl, hletter, -⟩
    simp [h.ofLetter?_head? letter rfl] at hletter
  | _ => trivial

theorem Token.Ends.isDigit_head? (h : token.Ends raw rest) :
    ∀ base, token = .literal base → ∀ c ∈ rest.head?, base.isDigit c = false := by
  rintro base rfl
  exact h.1

namespace Lexeme

theorem tiles_of_covers (h : Covers start text items) (before : Text)
    (hstart : before.size = start) :
    ∃ body, items = body ++ [⟨.endOfText, .one (before ++ text).size⟩] ∧
      Tiles (before ++ text) start body := by
  induction h generalizing before with
  | nil =>
    subst hstart
    rw [List.append_nil]
    exact ⟨[], rfl, tiles_nil (Nat.le_refl _)⟩
  | @blank _ c text _ hblank _ ih =>
    obtain ⟨body, rfl, h⟩ := ih (before ++ [c])
      (by rw [Text.size_concat before (utf8Size_of_isBlank hblank), hstart])
    rw [List.append_assoc, List.singleton_append] at h ⊢
    refine ⟨body, rfl, (tiles_succ_iff h.start_le).mpr ⟨?_, h⟩⟩
    rw [← hstart, Text.getElem?_bytes_append, head?_bytes_isBlank]
    simpa using hblank
  | @lexeme _ token raw rest _ hraw hend _ ih =>
    obtain ⟨body, rfl, h⟩ := ih (before ++ raw) (by rw [Text.size_append, hraw.size, hstart])
    rw [List.append_assoc] at h ⊢
    have hpos := List.length_pos_iff.mpr hraw.shape.1
    subst hstart
    refine ⟨_ :: body, rfl, (tiles_cons_iff rfl).mpr ⟨standsIn_append hraw hend.isDigit_head?, ?_⟩⟩
    have hnext : before.size + (raw.length - 1) + 1 = before.size + raw.length := by omega
    rw [hnext]
    exact h

theorem Tiles.exists_lexeme {before text : Text}
    (h : Tiles (before ++ text) before.size (item :: later))
    (hfirst : item.span.first = before.size) :
    ∃ token raw rest, text = raw ++ rest ∧
      item = ⟨token, ⟨before.size, before.size + (raw.length - 1)⟩⟩ ∧ token.IsSpelling raw ∧
      (∀ base, token = .literal base → ∀ c ∈ rest.head?, base.isDigit c = false) ∧
      Tiles (before ++ raw ++ rest) (before ++ raw).size later := by
  obtain ⟨hitem, hlater⟩ := (tiles_cons_iff hfirst).mp h
  obtain ⟨raw, rest, rfl, hlast, hraw, hdigit⟩ := hitem.exists_append hfirst
  have hpos := List.length_pos_iff.mpr hraw.shape.1
  have hsize : (before ++ raw).size = before.size + raw.length := by
    rw [Text.size_append, hraw.size]
  have hnext : item.span.last + 1 = (before ++ raw).size := by omega
  rw [hnext, ← List.append_assoc] at hlater
  obtain ⟨token, first, last⟩ := item
  obtain rfl : first = before.size := hfirst
  obtain rfl : last = before.size + (raw.length - 1) := hlast
  exact ⟨token, raw, rest, rfl, rfl, hraw, hdigit, hlater⟩

theorem Tiles.of_blank {before text : Text} {c : Char}
    (h : Tiles (before ++ c :: text) before.size body)
    (hlt : ∀ item ∈ body, before.size < item.span.first) :
    isBlank c = true ∧ Tiles (before ++ [c] ++ text) (before ++ [c]).size body := by
  obtain ⟨hblank, hrest⟩ := (tiles_succ_iff hlt).mp h
  rw [Text.getElem?_bytes_append, head?_bytes_isBlank] at hblank
  have hc : isBlank c = true := hblank c rfl
  have hsize : (before ++ [c]).size = before.size + 1 :=
    Text.size_concat before (utf8Size_of_isBlank hc)
  rw [List.append_cons, ← hsize] at hrest
  exact ⟨hc, hrest⟩

theorem Tiles.covers {before text : Text} {body : List Lexeme}
    (h : Tiles (before ++ text) before.size body) :
    Covers before.size text (body ++ [⟨.endOfText, .one (before ++ text).size⟩]) := by
  match text with
  | [] =>
    rw [List.append_nil] at h ⊢
    obtain rfl := h.eq_nil
    exact .nil _
  | c :: text =>
    rcases h.head_cases with ⟨item, later, rfl, hfirst⟩ | hlt
    · obtain ⟨token, raw, rest, heq, rfl, hraw, hdigit, hlater⟩ := h.exists_lexeme hfirst
      have hshorter : rest.length < (c :: text).length := by
        have hpos := List.length_pos_iff.mpr hraw.shape.1
        rw [heq, List.length_append]
        omega
      have hcovers := hlater.covers
      rw [Text.size_append before raw, hraw.size, List.append_assoc] at hcovers
      rw [heq]
      exact .lexeme hraw (hcovers.ends hdigit) hcovers
    · obtain ⟨hblank, hrest⟩ := h.of_blank hlt
      have hcovers := hrest.covers
      rw [Text.size_concat before (utf8Size_of_isBlank hblank), ← List.append_cons] at hcovers
      exact .blank hblank hcovers
termination_by text.length
decreasing_by
  · exact hshorter
  · exact Nat.lt_succ_self _

/-- Scanning a text that is not too long yields the one tiling of it, with the end of the text
behind, and yields nothing else. -/
theorem scan_eq_ok_iff_tiles (source : Text) (items : List Lexeme) :
    scan source = .ok items ↔ source.size ≤ maxSize ∧
      ∃ body, items = body ++ [⟨.endOfText, .one source.size⟩] ∧ Tiles source 0 body := by
  rw [scan_eq_ok_iff]
  refine and_congr_right fun _ => ⟨fun h => tiles_of_covers h [] rfl, ?_⟩
  rintro ⟨body, rfl, h⟩
  exact @Tiles.covers [] source body h

end Lexeme

end WordCalc
