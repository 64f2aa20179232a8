import WordCalc.Proofs.Lexeme.Failing

/-! # Scanning a cut text

Scanning a text up to a position finds the lexemes in front of that position. What it makes of a
lexeme that goes on behind the position depends on how much of it is left.
-/

namespace WordCalc

variable {source rest text before front back left : Text} {position : Nat} {token : Token}
  {base : Base} {item : Lexeme} {items kept later : List Lexeme}

/-- The span starts in front of the position and does not end there. -/
def Span.CutAt (span : Span) (position : Nat) : Prop :=
  span.first < position ∧ position ≤ span.last

namespace Lexeme

/-- What scanning comes to in front of a position that cuts a lexeme, behind those that it keeps.
Of a literal, digits are left, or the zero of the marker, or a letter that is stuck; of an operator
its first character is stuck. -/
inductive ScansCut (source : Text) (position : Nat) (kept : List Lexeme) :
    Lexeme → Except ReadError (List Lexeme) → Prop
  | decimal (span : Span) : ScansCut source position kept ⟨.literal .decimal, span⟩
      (.ok (kept ++ [⟨.literal .decimal, ⟨span.first, position - 1⟩⟩,
        ⟨.endOfText, .one position⟩]))
  | zero {base : Base} {span : Span} (base_ne : base ≠ .decimal)
      (position_eq : position = span.first + 1) :
      ScansCut source position kept ⟨.literal base, span⟩
        (.ok (kept ++ [⟨.literal .decimal, .one span.first⟩, ⟨.endOfText, .one position⟩]))
  | letter {base : Base} {span : Span} {letter : Char} {digits : Text} (base_ne : base ≠ .decimal)
      (position_eq : position = span.first + 2)
      (text_eq : span.select? source = some ('0' :: letter :: digits)) :
      ScansCut source position kept ⟨.literal base, span⟩
        (.error (.unexpectedCharacter letter (.one (position - 1))))
  | digits {base : Base} {span : Span} (base_ne : base ≠ .decimal)
      (le_position : span.first + 3 ≤ position) :
      ScansCut source position kept ⟨.literal base, span⟩
        (.ok (kept ++ [⟨.literal base, ⟨span.first, position - 1⟩⟩, ⟨.endOfText, .one position⟩]))
  | operator {op : BinaryOp} {span : Span} {c d : Char} (symbol_eq : op.symbol = [c, d]) :
      ScansCut source position kept ⟨.operator op, span⟩
        (.error (.unexpectedCharacter c (.one (position - 1))))

/-- How scanning a text up to a position is related to the lexemes of the whole text. -/
structure CutScan (source : Text) (items : List Lexeme) (position : Nat) (front : Text) : Prop where
  keeps : items.filter (·.span.last < position) <+: found front
  between : (∀ item ∈ items, ¬item.span.CutAt position) → scan front =
    .ok (items.filter (·.span.last < position) ++ [⟨.endOfText, .one position⟩])
  through : ∀ item ∈ items, item.span.CutAt position →
    ScansCut source position (items.filter (·.span.last < position)) item (scan front)

end Lexeme

namespace CoversBefore

theorem span_of_mem (h : CoversBefore rest position text items) (hitem : item ∈ items) :
    position ≤ item.span.first ∧ item.span.first ≤ item.span.last ∧
      item.span.last < position + text.length := by
  obtain ⟨front, back, rfl⟩ := List.append_of_mem hitem
  obtain ⟨before, raw, after, rfl, -, hraw, hspan, -⟩ := h.exists_middle
  have hpos := List.length_pos_iff.mpr hraw.shape.1
  rw [hspan]
  simp only [List.length_append]
  omega

theorem last_lt_first (h : CoversBefore rest position text (kept ++ item :: later)) :
    ∀ next ∈ later, item.span.last < next.span.first := by
  intro next hnext
  obtain ⟨before, raw, after, rfl, -, hraw, hspan, hafter⟩ := h.exists_middle
  have hpos := List.length_pos_iff.mpr hraw.shape.1
  have hle := (hafter.span_of_mem hnext).1
  rw [hspan]
  dsimp only
  omega

theorem prefix_found (h : CoversBefore rest 0 text items) :
    items <+: Lexeme.found (text ++ rest) := by
  rw [Lexeme.found, h.walk, List.foldr_cons_eq_append']
  exact List.prefix_append ..

end CoversBefore

theorem Covers.span_of_mem (h : Covers position text items) (hitem : item ∈ items) :
    position ≤ item.span.first ∧ item.span.first ≤ item.span.last := by
  obtain ⟨body, rfl, hbody⟩ := covers_iff.mp h
  rcases List.mem_append.mp hitem with hmem | hmem
  · have hspan := hbody.span_of_mem hmem
    exact ⟨hspan.1, hspan.2.1⟩
  · obtain rfl := List.mem_singleton.mp hmem
    exact ⟨Nat.le_add_right .., Nat.le_refl _⟩

namespace Lexeme

theorem filter_last_lt (hkept : ∀ item ∈ kept, item.span.last < position)
    (hlater : ∀ item ∈ later, position ≤ item.span.first ∧ item.span.first ≤ item.span.last) :
    (kept ++ later).filter (·.span.last < position) = kept := by
  have hnone : later.filter (·.span.last < position) = [] := by
    rw [List.filter_eq_nil_iff]
    intro item hitem
    have hle := hlater item hitem
    simp only [decide_eq_true_eq]
    omega
  rw [List.filter_append, hnone, List.append_nil, List.filter_eq_self]
  simpa using hkept

theorem not_cutAt (hkept : ∀ item ∈ kept, item.span.last < position)
    (hlater : ∀ item ∈ later, position ≤ item.span.first ∧ item.span.first ≤ item.span.last)
    (hitem : item ∈ kept ++ later) : ¬item.span.CutAt position := by
  rintro ⟨hfirst, hlast⟩
  rcases List.mem_append.mp hitem with hmem | hmem
  · exact absurd (hkept item hmem) (Nat.not_lt_of_le hlast)
  · exact absurd hfirst (Nat.not_lt_of_le (hlater item hmem).1)

theorem cutScan_between (hsize : front.size ≤ maxSize) (hkept : CoversBefore [] 0 front kept)
    (hlater : ∀ item ∈ later, front.size ≤ item.span.first ∧ item.span.first ≤ item.span.last) :
    CutScan source (kept ++ later) front.size front := by
  have hlast : ∀ item ∈ kept, item.span.last < front.size := by
    intro item hitem
    have hspan := hkept.span_of_mem hitem
    rw [hkept.size_eq_length]
    omega
  have hfilter := filter_last_lt hlast hlater
  refine ⟨?_, fun _ => ?_, ?_⟩
  · rw [hfilter]
    simpa using hkept.prefix_found
  · rw [hfilter]
    exact hkept.scan hsize
  · intro item hitem hcut
    exact absurd hcut (not_cutAt hlast hlater hitem)

theorem cutScan_through (hkept : CoversBefore left 0 before kept)
    (hcut : item.span.CutAt (before ++ left).size)
    (hscan : ScansCut source (before ++ left).size kept item (scan (before ++ left)))
    (hlater : ∀ next ∈ later, (before ++ left).size ≤ next.span.first ∧
      next.span.first ≤ next.span.last) :
    CutScan source (kept ++ item :: later) (before ++ left).size (before ++ left) := by
  have hlast : ∀ item ∈ kept, item.span.last < (before ++ left).size := by
    intro item hitem
    have hspan := hkept.span_of_mem hitem
    rw [Text.size_append, hkept.size_eq_length]
    omega
  have hfilter : (kept ++ item :: later).filter (·.span.last < (before ++ left).size) = kept := by
    have hnot : ¬item.span.last < (before ++ left).size := Nat.not_lt_of_le hcut.2
    have hrest := filter_last_lt hlast hlater
    rw [List.filter_append] at hrest ⊢
    rwa [List.filter_cons_of_neg (by simpa using hnot)]
  refine ⟨?_, fun hnone => ?_, ?_⟩
  · rw [hfilter]
    exact hkept.prefix_found
  · exact absurd hcut (hnone item (by simp))
  · intro next hnext hthrough
    have hother : next ∉ kept ++ later := fun hmem => not_cutAt hlast hlater hmem hthrough
    rw [hfilter]
    rcases List.mem_append.mp hnext with hmem | hmem
    · exact absurd (List.mem_append_left _ hmem) hother
    · rcases List.mem_cons.mp hmem with rfl | hmem
      · exact hscan
      · exact absurd (List.mem_append_right _ hmem) hother

theorem exists_operator_of_mem_symbols (h : (left ++ back, token) ∈ Token.symbols)
    (hleft : left ≠ []) (hback : back ≠ []) :
    ∃ op c d, token = .operator op ∧ op.symbol = [c, d] ∧ left = [c] := by
  have htable : ∀ x ∈ Token.symbols, 1 < x.1.length →
      ∃ op ∈ BinaryOp.all, x = (op.symbol, .operator op) := by decide
  have hlength := List.length_pos_iff.mpr hleft
  have hlength' := List.length_pos_iff.mpr hback
  obtain ⟨op, -, heq⟩ := htable _ h (by rw [List.length_append]; omega)
  obtain ⟨hsymbol, rfl⟩ := Prod.mk.inj heq
  have htwo : op.symbol.length ≤ 2 := Token.length_symbol_le _ (operator_mem_symbols op)
  rw [← hsymbol, List.length_append] at htwo
  obtain ⟨c, rfl⟩ := List.length_eq_one_iff.mp (by omega : left.length = 1)
  obtain ⟨d, rfl⟩ := List.length_eq_one_iff.mp (by omega : back.length = 1)
  exact ⟨op, c, d, rfl, hsymbol.symm, rfl⟩

theorem scan_numeral (hsize : (before ++ left).size ≤ maxSize)
    (hkept : CoversBefore left 0 before kept) (hleft : base.IsNumeral left) :
    scan (before ++ left) = .ok (kept ++
      [⟨.literal base, ⟨before.size, (before ++ left).size - 1⟩⟩,
        ⟨.endOfText, .one (before ++ left).size⟩]) := by
  have hspelling : (Token.literal base).IsSpelling left := hleft
  have hpos := List.length_pos_iff.mpr hspelling.shape.1
  have hlast : (before ++ left).size - 1 = before.size + (left.length - 1) := by
    rw [Text.size_append, hspelling.size]
    omega
  have hcovers := hkept.numeral_cut hleft
  rw [Nat.zero_add, ← hkept.size_eq_length, ← hlast] at hcovers
  rw [hcovers.scan hsize, List.append_assoc]
  rfl

theorem scansCut_numeral (hsize : (before ++ left).size ≤ maxSize)
    (hkept : CoversBefore left 0 before kept) (hleft : base.IsNumeral left) (last : Nat) :
    ScansCut source (before ++ left).size kept ⟨.literal base, ⟨before.size, last⟩⟩
      (scan (before ++ left)) := by
  rw [scan_numeral hsize hkept hleft]
  by_cases hbase : base = .decimal
  · subst hbase
    exact .decimal _
  · refine .digits hbase ?_
    have hmarker : base.marker.length = 2 := by cases base <;> simp_all [Base.marker]
    have hlength := hleft.numeral_lt.1
    have hspelling : (Token.literal base).IsSpelling left := hleft
    rw [Text.size_append, hspelling.size]
    dsimp only
    omega

theorem scansCut_zero (hsize : (before ++ ['0']).size ≤ maxSize)
    (hkept : CoversBefore ['0'] 0 before kept) (last : Nat) :
    ScansCut source (before ++ ['0']).size kept ⟨.literal base, ⟨before.size, last⟩⟩
      (scan (before ++ ['0'])) := by
  rw [scan_numeral hsize hkept Base.isNumeral_zero]
  by_cases hbase : base = .decimal
  · subst hbase
    exact .decimal _
  · have hsize' : (before ++ ['0']).size = before.size + 1 := Text.size_concat before rfl
    have hlast : (before ++ ['0']).size - 1 = before.size := by omega
    rw [hlast]
    exact .zero hbase hsize'

theorem scansCut_letter {letter : Char} {digits : Text} {span : Span}
    (hsize : (before ++ ['0', letter]).size ≤ maxSize)
    (hkept : CoversBefore ['0', letter] 0 before kept) (hletter : Base.ofLetter? letter = some base)
    (hfirst : span.first = before.size)
    (hselect : span.select? source = some ('0' :: letter :: digits)) :
    ScansCut source (before ++ ['0', letter]).size kept ⟨.literal base, span⟩
      (scan (before ++ ['0', letter])) := by
  have hone := (Token.letter_shape hletter).1
  have hposition : (before ++ ['0', letter]).size = span.first + 2 := by
    rw [List.append_cons, Text.size_concat _ hone, Text.size_concat before rfl, hfirst]
  have hscan := scan_stuck (by rwa [← List.append_cons])
    (by simpa using hkept.letter_cut hletter) (mem_stuck_of_ofLetter? hletter)
  rw [← List.append_cons] at hscan
  rw [hscan]
  exact .letter (Base.ofLetter?_ne_decimal hletter) hposition hselect

theorem scansCut_literal {right behind : Text} (hsize : (before ++ left).size ≤ maxSize)
    (hkept : CoversBefore left 0 before kept) (hleft : left ≠ []) (hright : right ≠ [])
    (hraw : base.IsNumeral (left ++ right)) :
    ScansCut (before ++ (left ++ right ++ behind)) (before ++ left).size kept
      ⟨.literal base, ⟨before.size, before.size + ((left ++ right).length - 1)⟩⟩
      (scan (before ++ left)) := by
  have hspelling : (Token.literal base).IsSpelling (left ++ right) := hraw
  cases hspelling.leavesOf hleft hright with
  | numeral htoken hnumeral =>
    obtain rfl := Token.literal.inj htoken
    exact scansCut_numeral hsize hkept hnumeral _
  | zero htoken hzero =>
    subst hzero
    exact scansCut_zero hsize hkept _
  | letter htoken hletter heq =>
    obtain rfl := Token.literal.inj htoken
    subst heq
    exact scansCut_letter hsize hkept hletter rfl (select?_spelling hspelling)
  | operator heq hc =>
    subst heq
    obtain ⟨d, _, hcons, hdigit⟩ := Token.exists_digit_of_isNumeral hraw
    obtain ⟨rfl, -⟩ := List.cons.inj hcons
    rcases hc with rfl | rfl <;> cases hdigit

theorem scansCut_symbol {right : Text} (hsize : (before ++ left).size ≤ maxSize)
    (hkept : CoversBefore left 0 before kept) (hleft : left ≠ []) (hright : right ≠ [])
    (hraw : (left ++ right, token) ∈ Token.symbols) (span : Span) :
    ScansCut source (before ++ left).size kept ⟨token, span⟩ (scan (before ++ left)) := by
  obtain ⟨op, c, d, rfl, hsymbol, rfl⟩ := exists_operator_of_mem_symbols hraw hleft hright
  have hc : c = '>' ∨ c = '<' := (symbol_pair _ (operator_mem_symbols op) c d [] hsymbol).2
  rw [scan_stuck hsize hkept (by rcases hc with rfl | rfl <;> decide)]
  exact .operator hsymbol

theorem scansCut_of_straddles (hsize : (before ++ left).size ≤ maxSize)
    (hkept : CoversBefore left 0 before kept)
    (hcut : Straddles left back before.size (item :: later)) :
    item.span.CutAt (before ++ left).size ∧
      ScansCut (before ++ (left ++ back)) (before ++ left).size kept item
        (scan (before ++ left)) := by
  cases hcut with
  | @lexeme token _ right behind _ _ hleft hright hspelling =>
    constructor
    · have hsum := hspelling.size
      have hlength := List.length_pos_iff.mpr hleft
      have hlength' := List.length_pos_iff.mpr hright
      have hle := Text.length_le_size left
      have hle' := Text.length_le_size right
      rw [Text.size_append, List.length_append] at hsum
      rw [Span.CutAt, Text.size_append, List.length_append]
      dsimp only
      omega
    · rw [← List.append_assoc left]
      cases token with
      | literal base => exact scansCut_literal hsize hkept hleft hright hspelling
      | _ => exact scansCut_symbol hsize hkept hleft hright hspelling _

/-- Scanning a text up to a position keeps the lexemes that end in front of it, and makes of one
that is cut what is left of it, or fails. -/
theorem scan_cut (h : scan source = .ok items) (hposition : position ≤ source.size) :
    ∃ front, source.takeBytes? position = some front ∧ CutScan source items position front := by
  obtain ⟨hsize, hcovers⟩ := scan_eq_ok_iff.mp h
  obtain ⟨body, rfl, hbody⟩ := exists_of_scan h
  obtain ⟨front, back, rfl, rfl⟩ := Text.exists_append_of_size hbody.size_eq_length hposition
  refine ⟨front, Text.takeBytes?_size_append front back, ?_⟩
  obtain ⟨before, left, kept, later, rfl, rfl, hkept, hcut⟩ := hbody.cuts
  have hfront : (before ++ left).size ≤ maxSize := Nat.le_trans hposition hsize
  have hbefore : 0 + before.length = before.size := by rw [hkept.size_eq_length, Nat.zero_add]
  rw [List.append_nil] at hkept
  rw [hbefore] at hcut
  rw [List.append_assoc kept] at hcovers ⊢
  rcases hcut with rfl | hcut
  · rw [List.append_nil] at hcovers hfront ⊢
    have hrest := hkept.covers_rest hcovers
    rw [hbefore] at hrest
    exact cutScan_between hfront hkept.clean_cut fun item hitem => hrest.span_of_mem hitem
  · cases later with
    | nil => cases hcut
    | cons item later =>
      obtain ⟨hthrough, hscan⟩ := scansCut_of_straddles hfront (hkept.kept_cut hcut) hcut
      rw [← List.append_assoc] at hscan
      refine cutScan_through (hkept.kept_cut hcut) hthrough hscan fun next hnext => ?_
      rcases List.mem_append.mp hnext with hmem | hmem
      · have hlt := hbody.last_lt_first next hmem
        exact ⟨Nat.le_of_lt (Nat.lt_of_le_of_lt hthrough.2 hlt),
          (hbody.span_of_mem (by simp [hmem])).2.1⟩
      · obtain rfl := List.mem_singleton.mp hmem
        exact ⟨hposition, Nat.le_refl _⟩

theorem scan_cut_letter :
    scan ['7', '-', '0', 'X', 'a'] = .ok [⟨.literal .decimal, ⟨0, 0⟩⟩, ⟨.operator .sub, ⟨1, 1⟩⟩,
      ⟨.literal .hexadecimal, ⟨2, 4⟩⟩, ⟨.endOfText, ⟨5, 5⟩⟩] ∧
    4 ≤ Text.size ['7', '-', '0', 'X', 'a'] ∧
    ∃ front, Text.takeBytes? 4 ['7', '-', '0', 'X', 'a'] = some front ∧
      CutScan ['7', '-', '0', 'X', 'a'] [⟨.literal .decimal, ⟨0, 0⟩⟩, ⟨.operator .sub, ⟨1, 1⟩⟩,
        ⟨.literal .hexadecimal, ⟨2, 4⟩⟩, ⟨.endOfText, ⟨5, 5⟩⟩] 4 front := by
  have hscan : scan ['7', '-', '0', 'X', 'a'] = .ok [⟨.literal .decimal, ⟨0, 0⟩⟩,
    ⟨.operator .sub, ⟨1, 1⟩⟩, ⟨.literal .hexadecimal, ⟨2, 4⟩⟩, ⟨.endOfText, ⟨5, 5⟩⟩] := rfl
  have hle : 4 ≤ Text.size ['7', '-', '0', 'X', 'a'] := by decide
  exact ⟨hscan, hle, scan_cut hscan hle⟩

end Lexeme

end WordCalc
