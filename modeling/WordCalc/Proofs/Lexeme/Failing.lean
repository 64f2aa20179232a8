import WordCalc.Proofs.Lexeme.Cutting

/-! # Failing scans

Scanning fails at the first character at which neither a blank nor a token stands. What it has found
by then is what it finds in the text in front of that character, and later text changes nothing
unless the character is the last one.
-/

namespace WordCalc

variable {source text later raw : Text} {token : Token} {c d : Char} {items : List Lexeme}

namespace Lexeme

/-- The lexemes that scanning finds before it ends, with or without an error. It is the walk of
`scanFrom_eq_walk` that keeps the lexemes in front of an error. -/
def found (source : Text) : List Lexeme := walk (fun _ => []) (fun _ _ => []) List.cons 0 0 source

/-- The characters at which a scan goes on, whatever follows. -/
def starters : Text := " \t0123456789+-*/&|^~()".toList

def pairs : List Text := [['>', '>'], ['>', '-'], ['<', '<']]

/-- The byte at the position is no blank, no digit and no operator of one character, and does not
form an operator with the byte behind it. -/
def StartsNothing (source : Text) (position : Nat) : Prop :=
  ∃ b, source.bytes[position]? = some b ∧ Char.ofUInt8 b ∉ starters ∧
    ∀ b' ∈ source.bytes[position + 1]?, [Char.ofUInt8 b, Char.ofUInt8 b'] ∉ pairs

end Lexeme

namespace CoversBefore

theorem found_eq (h : CoversBefore (c :: later) 0 text items) (hblank : Lexeme.isBlank c = false)
    (hlong : Token.longest? (c :: later) = none) : Lexeme.found (text ++ c :: later) = items := by
  rw [Lexeme.found, h.walk]
  simp [Lexeme.walk, hblank, hlong]

end CoversBefore

theorem Token.longest?_ne_none_of_isDigit (h : Base.decimal.isDigit c = true) :
    longest? (c :: later) ≠ none := by
  simp [longest?, h]

theorem Token.longest?_ne_none_of_symbol (h : raw ∈ symbols.map Prod.fst) (rest : Text) :
    longest? (raw ++ rest) ≠ none := by
  obtain ⟨⟨raw, token⟩, hmem, rfl⟩ := List.mem_map.mp h
  rw [symbol_longest? hmem]
  exact Option.some_ne_none _

theorem Token.IsSpelling.longest?_ne_none (h : token.IsSpelling raw) (rest : Text) :
    longest? (raw ++ rest) ≠ none := by
  cases token with
  | literal base =>
    obtain ⟨c, later, rfl, hdigit⟩ := exists_digit_of_isNumeral h
    exact longest?_ne_none_of_isDigit hdigit
  | _ => exact longest?_ne_none_of_symbol (List.mem_map_of_mem h) rest

theorem Token.length_symbol_le : ∀ x ∈ symbols, x.1.length ≤ 2 := by decide

theorem Token.symbol_prefix_of_append {rest : Text} (h : (raw, token) ∈ symbols)
    (hstart : raw <+: c :: d :: later ++ rest) : raw <+: c :: d :: later := by
  refine List.prefix_of_prefix_length_le hstart (List.prefix_append _ rest) ?_
  have hlength := length_symbol_le _ h
  simp only [List.length_cons] at hlength ⊢
  omega

theorem Token.longest?_append_eq_none (h : longest? (c :: d :: later) = none) (rest : Text) :
    longest? (c :: d :: later ++ rest) = none := by
  cases hlong : longest? (c :: d :: later ++ rest) with
  | none => rfl
  | some found =>
    obtain ⟨raw, behind, heq, -, hraw, -⟩ := exists_of_longest? hlong
    have hsymbol : (raw, found.1) ∉ symbols := by
      intro hmem
      obtain ⟨behind', heq'⟩ := symbol_prefix_of_append hmem ⟨behind, heq.symm⟩
      rw [← heq'] at h
      exact longest?_ne_none_of_symbol (List.mem_map_of_mem hmem) behind' h
    cases hfound : found.1 with
    | literal base =>
      rw [hfound] at hraw
      obtain ⟨c', later', rfl, hdigit⟩ := exists_digit_of_isNumeral hraw
      obtain ⟨rfl, -⟩ := List.cons.inj heq
      exact absurd h (longest?_ne_none_of_isDigit hdigit)
    | _ =>
      rw [hfound] at hraw hsymbol
      exact absurd hraw hsymbol

theorem Token.Ends.append_rest (h : token.Ends raw (c :: d :: later)) (rest : Text) :
    token.Ends raw (c :: d :: later ++ rest) := by
  cases token with
  | literal base =>
    refine ⟨h.1, fun hbase hzero hannounces => h.2 hbase hzero ?_⟩
    obtain ⟨letter, base', digit, behind, heq, hletter, hdigit⟩ := hannounces
    obtain ⟨rfl, hlater⟩ := List.cons.inj heq
    obtain ⟨rfl, -⟩ := List.cons.inj hlater
    exact ⟨c, base', d, later, rfl, hletter, hdigit⟩
  | _ => trivial

theorem Lexeme.starters_shape : ∀ x ∈ starters, x.toNat < 128 ∧
    (isBlank x = true ∨ Base.decimal.isDigit x = true ∨ [x] ∈ Token.symbols.map Prod.fst) := by
  have htable : starters.all fun x => x.toNat < 128 && (isBlank x || Base.decimal.isDigit x ||
      (Token.symbols.map Prod.fst).contains [x]) := by decide
  intro x hx
  simpa [or_assoc] using List.all_eq_true.mp htable x hx

theorem Lexeme.pairs_shape : ∀ pair ∈ pairs, (∀ x ∈ pair, x.toNat < 128) ∧
    pair ∈ Token.symbols.map Prod.fst := by
  have htable : pairs.all fun pair => pair.all (fun x => x.toNat < 128) &&
      (Token.symbols.map Prod.fst).contains pair := by decide
  intro pair hpair
  simpa using List.all_eq_true.mp htable pair hpair

namespace Text

theorem head?_eq_of_head?_bytes {text : Text} {b : UInt8} {x : Char} (hx : x.toNat < 128)
    (hb : text.bytes.head? = some b) (h : Char.ofUInt8 b = x) : text.head? = some x := by
  have hbytes := head?_bytes (p := (· == x)) (fun c hc => by rwa [eq_of_beq hc]) text
  rw [hb, Option.map_some, h, beq_self_eq_true] at hbytes
  obtain ⟨c, hc, heq⟩ := Option.map_eq_some_iff.mp hbytes.symm
  rw [hc, eq_of_beq heq]

end Text

namespace Lexeme

variable {before : Text}

theorem startsNothing_of_longest? (hblank : isBlank c = false)
    (hlong : Token.longest? (c :: later) = none) :
    StartsNothing (before ++ c :: later) before.size := by
  obtain ⟨b, behind, heq, -⟩ := Text.exists_utf8EncodeChar c
  have hb : (Text.bytes (c :: later)).head? = some b := by
    rw [Text.bytes_cons, heq]
    rfl
  have hfirst : (Char.ofUInt8 b).toNat < 128 → c = Char.ofUInt8 b := fun hsmall =>
    Option.some.inj (Text.head?_eq_of_head?_bytes hsmall hb rfl)
  refine ⟨b, (Text.getElem?_bytes_append ..).trans hb, fun hmem => ?_, fun b' hb' hmem => ?_⟩
  · obtain ⟨hsmall, hstarts⟩ := starters_shape _ hmem
    rw [← hfirst hsmall] at hstarts
    rcases hstarts with hc | hdigit | hsymbol
    · rw [hblank] at hc
      cases hc
    · exact Token.longest?_ne_none_of_isDigit hdigit hlong
    · exact Token.longest?_ne_none_of_symbol hsymbol later hlong
  · obtain ⟨hsmall, hsymbol⟩ := pairs_shape _ hmem
    have hc := hfirst (hsmall _ (by simp))
    rw [← hc] at hsmall hsymbol
    have hone : c.utf8Size = 1 :=
      Char.utf8Size_eq_one_iff.mpr (Nat.le_of_lt_succ (hsmall c (by simp)))
    have hsize : (before ++ [c]).size = before.size + 1 := Text.size_concat before hone
    rw [← hsize, List.append_cons, Text.getElem?_bytes_append] at hb'
    have hsecond : later.head? = some (Char.ofUInt8 b') :=
      Text.head?_eq_of_head?_bytes (hsmall _ (by simp)) hb' rfl
    obtain ⟨later, rfl⟩ := List.head?_eq_some_iff.mp hsecond
    exact Token.longest?_ne_none_of_symbol hsymbol later hlong

theorem scan_eq_tooLong_iff (source : Text) :
    scan source = .error (.tooLong source.size) ↔ maxSize < source.size := by
  unfold scan
  split
  · rename_i hlong
    simp [hlong]
  · rename_i hshort
    simp only [hshort, iff_false]
    intro h
    obtain ⟨_, _, _, _, -, -, -, -, heq⟩ := scanFrom_eq_error_iff.mp h
    cases heq

/-- Scanning refuses exactly the texts that are too long. It fails for another text exactly at a
character that starts nothing, behind the lexemes that it finds in the text before, and unless the
character is the last one, it fails in the same way whatever text is added. -/
theorem scan_failure (source : Text) :
    (scan source = .error (.tooLong source.size) ↔ 4096 < source.size) ∧
    ∀ e, source.size ≤ 4096 → scan source = .error e → ∃ before c later,
      source = before ++ c :: later ∧ e = .unexpectedCharacter c (.one before.size) ∧
      scan before = .ok (found source ++ [⟨.endOfText, .one before.size⟩]) ∧
      StartsNothing source before.size ∧
      (later ≠ [] → ∀ text, (source ++ text).size ≤ 4096 → scan (source ++ text) = .error e) := by
  refine ⟨scan_eq_tooLong_iff source, fun e hsize h => ?_⟩
  rw [scan_of_le hsize] at h
  obtain ⟨before, c, later, items, rfl, hbefore, hblank, hlong, rfl⟩ :=
    scanFrom_eq_error_iff.mp h
  have hlength : 0 + before.length = before.size := by
    rw [hbefore.size_eq_length, Nat.zero_add]
  refine ⟨before, c, later, rfl, by rw [hlength], ?_, startsNothing_of_longest? hblank hlong, ?_⟩
  · have hfront : before.size ≤ maxSize := by
      rw [Text.size_append] at hsize
      exact Nat.le_trans (Nat.le_add_right ..) hsize
    rw [hbefore.found_eq hblank hlong]
    refine scan_eq_ok_iff.mpr ⟨hfront, covers_iff.mpr ⟨items, ?_, hbefore.clean_cut⟩⟩
    rw [hlength]
  · intro hlater text hsize'
    obtain ⟨d, later, rfl⟩ := List.exists_cons_of_ne_nil hlater
    rw [List.append_assoc, List.cons_append] at hsize' ⊢
    rw [scan_of_le hsize']
    refine scanFrom_eq_error_iff.mpr ⟨before, c, _, items, rfl, ?_, hblank, ?_, rfl⟩
    · exact hbefore.switch fun last _ raw hend => hend.append_rest text
    · exact Token.longest?_append_eq_none hlong text

theorem scan_failure_letter :
    scan ['7', '+', '0'] = .ok (found ['7', '+', '0', 'x', '€'] ++ [⟨.endOfText, ⟨3, 3⟩⟩]) ∧
    ∀ text, Text.size (['7', '+', '0', 'x', '€'] ++ text) ≤ 4096 →
      scan (['7', '+', '0', 'x', '€'] ++ text) = .error (.unexpectedCharacter 'x' ⟨3, 3⟩) := by
  have herror : scan ['7', '+', '0', 'x', '€'] = .error (.unexpectedCharacter 'x' ⟨3, 3⟩) := rfl
  obtain ⟨before, c, later, hsplit, hspan, hfront, -, hstays⟩ :=
    (scan_failure ['7', '+', '0', 'x', '€']).2 _ (by decide) herror
  have hsize : before.size = 3 := by
    injection hspan with _ hspan
    injection hspan with hfirst
    exact hfirst.symm
  have hsame : ['7', '+', '0'] ++ ['x', '€'] = before ++ c :: later := hsplit
  obtain ⟨rfl, hlater⟩ := Text.append_inj_of_size hsame hsize.symm
  obtain ⟨rfl, rfl⟩ := List.cons.inj hlater
  exact ⟨hfront, hstays (by simp)⟩

end Lexeme

end WordCalc
