import WordCalc.Proofs.Group.Context
import WordCalc.Proofs.Layout.Pieces

/-! # Independence of the layout

The grammar never puts two literals next to each other, and no other piece runs into the one
behind it. So all layouts of the pieces of an expression scan to these pieces and are read as the
same expression, with any blanks and with none.
-/

namespace WordCalc

variable {ν : Type} {value : Base → Text → Option ν} {source text : Text} {items : List Lexeme}
  {pieces : List Piece} {t : Terminal ν} {terminals rest : List (Terminal ν)} {e : Expr}

/-- Of two neighbours, one is no literal. -/
def Apart (terminals : List (Terminal ν)) : Prop :=
  terminals.IsChain fun t t' => t.isLiteral = false ∨ t'.isLiteral = false

theorem apart_cons_iff : Apart (t :: terminals) ↔
    (t.isLiteral = true → ∀ next ∈ terminals.head?, next.isLiteral = false) ∧
      Apart terminals := by
  have hnext (next : Terminal ν) : t.isLiteral = false ∨ next.isLiteral = false ↔
      (t.isLiteral = true → next.isLiteral = false) := by
    cases t.isLiteral <;> simp
  simp only [Apart, List.isChain_cons, hnext]
  grind

theorem Apart.cons (h : Apart terminals) (ht : t.isLiteral = false) : Apart (t :: terminals) := by
  refine apart_cons_iff.mpr ⟨fun hliteral => ?_, h⟩
  rw [ht] at hliteral
  cases hliteral

mutual

theorem Operand.apart : ∀ (o : Operand ν) {rest : List (Terminal ν)},
    (∀ next ∈ rest.head?, next.isLiteral = false) → Apart rest → Apart (o.terminals ++ rest)
  | .literal _, _, hnext, h => apart_cons_iff.mpr ⟨fun _ => hnext, h⟩
  | .unary op operand, _, hnext, h =>
    (operand.apart hnext h).cons (by cases op <;> rfl)
  | .group first tail, rest, _, h => by
    have hclose : Apart (.closeParen :: rest) := h.cons rfl
    obtain ⟨htail, hfirst⟩ := tail.apart (by simp [Terminal.isLiteral]) hclose
    have hopen : Apart (.openParen :: (first.terminals ++ _)) := (first.apart hfirst htail).cons rfl
    simpa using hopen

theorem Tail.apart : ∀ (t : Tail ν) {rest : List (Terminal ν)},
    (∀ next ∈ rest.head?, next.isLiteral = false) → Apart rest →
      Apart (t.terminals ++ rest) ∧ ∀ next ∈ (t.terminals ++ rest).head?, next.isLiteral = false
  | .done, _, hnext, h => ⟨h, hnext⟩
  | .more op operand tail, _, hnext, h => by
    obtain ⟨htail, hoperand⟩ := tail.apart hnext h
    have hmore : Apart (.operator op :: (operand.terminals ++ _)) :=
      (operand.apart hoperand htail).cons rfl
    exact ⟨by simpa using hmore, by simp [Terminal.isLiteral]⟩

end

theorem Chain.apart (c : Chain ν) : Apart c.terminals := by
  have hnil : ∀ next ∈ ([] : List (Terminal ν)).head?, next.isLiteral = false := by simp
  obtain ⟨htail, hfirst⟩ := c.tail.apart hnil .nil
  rw [List.append_nil] at htail hfirst
  exact c.first.apart hfirst htail

theorem Piece.isLiteral_eq {piece : Piece} (h : piece.terminal? value = some t) :
    piece.token.isLiteral = t.isLiteral := by
  let item : Lexeme := ⟨piece.token, .one 0⟩
  let valueOf : Base → Span → Option ν := fun base _ => value base piece.raw
  have hitem : item.terminal? valueOf = some t := h
  exact isLiteral_of_terminal? hitem

theorem Piece.ends {piece : Piece} {rest : Text}
    (h : piece.token.isLiteral = true → Bounds rest) : piece.token.Ends piece.raw rest := by
  cases htoken : piece.token with
  | literal base => exact (h (by rw [htoken]; rfl)).ends
  | _ => trivial

theorem LaysOut.bounds (h : LaysOut pieces text)
    (hfirst : ∀ first ∈ pieces.head?, first.token.isLiteral = false) : Bounds text := by
  cases h with
  | nil => exact bounds_nil
  | blank hblank _ => exact bounds_of_isBlank hblank _
  | piece piece _ =>
    have hliteral := hfirst piece rfl
    have hspelling := piece.spelling
    cases htoken : piece.token with
    | literal => simp [htoken, Token.isLiteral] at hliteral
    | _ =>
      rw [htoken] at hspelling
      exact bounds_append hspelling _

theorem isLiteral_head?_of_map (hts : pieces.map (Piece.terminal? value) = terminals.map some)
    (h : ∀ next ∈ terminals.head?, next.isLiteral = false) :
    ∀ first ∈ pieces.head?, first.token.isLiteral = false := by
  intro first hfirst
  cases pieces with
  | nil => cases hfirst
  | cons piece pieces =>
    obtain rfl : piece = first := Option.some.inj hfirst
    cases terminals with
    | nil => cases hts
    | cons t terminals =>
      obtain ⟨ht, -⟩ := List.cons.inj hts
      exact (Piece.isLiteral_eq ht).trans (h t rfl)

/-- If its literals stand apart, a layout is covered by lexemes of its pieces. -/
theorem LaysOut.exists_coversBefore (h : LaysOut pieces text)
    (hts : pieces.map (Piece.terminal? value) = terminals.map some) (hapart : Apart terminals)
    (position : Nat) :
    ∃ items, CoversBefore [] position text items ∧ HoldAt position text items pieces := by
  induction h generalizing terminals position with
  | nil => exact ⟨[], .nil position, .nil position⟩
  | blank hblank _ ih =>
    obtain ⟨items, hcovers, hhold⟩ := ih hts hapart (position + 1)
    exact ⟨items, .blank hblank hcovers, hhold.blank hblank⟩
  | @piece piece pieces text h ih =>
    cases terminals with
    | nil => cases hts
    | cons t terminals =>
      obtain ⟨ht, hts⟩ := List.cons.inj hts
      obtain ⟨hnext, hapart⟩ := apart_cons_iff.mp hapart
      obtain ⟨items, hcovers, hhold⟩ := ih hts hapart (position + piece.raw.length)
      have hend : piece.token.Ends piece.raw (text ++ []) := by
        rw [List.append_nil]
        refine Piece.ends fun hliteral => h.bounds (isLiteral_head?_of_map hts (hnext ?_))
        rw [← Piece.isLiteral_eq ht, hliteral]
      exact ⟨_, .lexeme piece.spelling hend hcovers, hhold.piece piece⟩

/-- Reading the text finds the pieces and makes the expression of them. -/
def ReadsAs (text : Text) (pieces : List Piece) (e : Expr) : Prop :=
  Scans text pieces ∧ Expr.ofText text = .ok e

theorem readsAs_of_laysOut {c : Chain Word} (h : LaysOut pieces text)
    (hts : pieces.map (Piece.terminal? Base.word?) = c.terminals.map some)
    (hsize : text.size ≤ maxSize) (hn : c.nesting ≤ maxNesting) : ReadsAs text pieces c.tree := by
  obtain ⟨items, hcovers, hhold⟩ := h.exists_coversBefore hts c.apart 0
  have hscans := scans_of_coversBefore hsize hcovers hhold
  refine ⟨hscans, ?_⟩
  obtain ⟨body, hscan, hholds⟩ := hscans
  have hspells := spells_iff.mpr ⟨body, _, hscan, rfl, (writes_iff_of_holds hholds).mpr hts⟩
  exact Expr.ofText_eq_ok_iff.mpr ⟨hsize, c, hspells.2, hn, rfl⟩

/-- An expression is read from every layout of the pieces of its text that is not too long, and from
the text without its blanks. The same pieces are found there. -/
theorem Expr.ofText_layout (h : ofText source = .ok e) :
    ∃ pieces, ReadsAs source pieces e ∧
      (∀ text, LaysOut pieces text → Text.size text ≤ maxSize → ReadsAs text pieces e) ∧
      ReadsAs source.withoutBlanks pieces e := by
  obtain ⟨hsize, c, hspells, hn, rfl⟩ := ofText_eq_ok_iff.mp h
  obtain ⟨body, last, hscan, -, hw⟩ := spells_iff.mp ⟨hsize, hspells⟩
  obtain ⟨pieces, hlays, hscans, hholds⟩ := exists_laysOut_of_scan hscan
  have hts := (writes_iff_of_holds hholds).mp hw
  have hshorter := Nat.le_trans source.size_withoutBlanks_le hsize
  exact ⟨pieces, ⟨hscans, h⟩, fun text hlays hsize => readsAs_of_laysOut hlays hts hsize hn,
    readsAs_of_laysOut hlays.withoutBlanks hts hshorter hn⟩

theorem Expr.ofText_layout_shift :
    ofText ['8', '>', '>', ' ', '-', '0', 'x', '2'] =
      .ok (.binary .shiftRight (.literal 8) (.unary .negate (.literal 2))) ∧
    ofText ['\t', '8', ' ', '>', '>', '-', ' ', '0', 'x', '2', ' '] =
      .ok (.binary .shiftRight (.literal 8) (.unary .negate (.literal 2))) ∧
    ofText ['8', '>', '>', '-', '0', 'x', '2'] =
      .ok (.binary .shiftRight (.literal 8) (.unary .negate (.literal 2))) := by
  have hread : ofText ['8', '>', '>', ' ', '-', '0', 'x', '2'] =
      .ok (.binary .shiftRight (.literal 8) (.unary .negate (.literal 2))) := rfl
  obtain ⟨pieces, ⟨hscans, -⟩, hlayouts, hshorter⟩ := ofText_layout hread
  have height : Base.decimal.IsNumeral ['8'] :=
    ⟨[], ['8'], rfl, rfl, by simp, List.forall_mem_singleton.mpr rfl⟩
  have htwo : Base.hexadecimal.IsNumeral ['0', 'x', '2'] :=
    ⟨['0', 'x'], ['2'], rfl, ⟨'x', rfl, rfl⟩, by simp, List.forall_mem_singleton.mpr rfl⟩
  let found : List Piece := [⟨.literal .decimal, ['8'], height⟩,
    ⟨.operator .shiftRight, ['>', '>'], operator_mem_symbols .shiftRight⟩,
    ⟨.operator .sub, ['-'], operator_mem_symbols .sub⟩,
    ⟨.literal .hexadecimal, ['0', 'x', '2'], htwo⟩]
  have hfound : Scans ['8', '>', '>', ' ', '-', '0', 'x', '2'] found :=
    ⟨[⟨.literal .decimal, ⟨0, 0⟩⟩, ⟨.operator .shiftRight, ⟨1, 2⟩⟩, ⟨.operator .sub, ⟨4, 4⟩⟩,
      ⟨.literal .hexadecimal, ⟨5, 7⟩⟩], rfl,
      .cons ⟨rfl, rfl⟩ (.cons ⟨rfl, rfl⟩ (.cons ⟨rfl, rfl⟩ (.cons ⟨rfl, rfl⟩ .nil)))⟩
  obtain rfl := hscans.unique hfound
  have hlays : LaysOut found ['\t', '8', ' ', '>', '>', '-', ' ', '0', 'x', '2', ' '] :=
    .blank rfl (.piece _ (.blank rfl (.piece _ (.piece _ (.blank rfl
      (.piece _ (.blank rfl .nil)))))))
  exact ⟨hread, (hlayouts _ hlays (by decide)).2, hshorter.2⟩

end WordCalc
