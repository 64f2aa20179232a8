import WordCalc.Lexeme
import WordCalc.Proofs.Numeral.Digit

/-! # Spellings of tokens

Which texts spell a token, and where the spelling at the start of a text ends. The longest
token there is the one whose spelling cannot be made longer.
-/

namespace WordCalc

def Base.IsMarker : Base → Text → Prop
  | decimal, mark => mark = []
  | base, mark => ∃ letter, ofLetter? letter = some base ∧ mark = ['0', letter]

/-- The text consists of a marker and at least one digit of the base. -/
def Base.IsNumeral (base : Base) (raw : Text) : Prop :=
  ∃ mark digits, raw = mark ++ digits ∧ base.IsMarker mark ∧ digits ≠ [] ∧
    ∀ c ∈ digits, base.isDigit c = true

namespace Token

def IsSpelling : Token → Text → Prop
  | literal base, raw => base.IsNumeral raw
  | token, raw => (raw, token) ∈ symbols

/-- A marker's letter and a digit of its base follow. -/
def Announces (rest : Text) : Prop :=
  ∃ letter base digit later, rest = letter :: digit :: later ∧
    Base.ofLetter? letter = some base ∧ base.isDigit digit = true

/-- The spelling of a literal cannot go on: no digit follows it, and a single zero is not part of
a marker. -/
def Ends : Token → (raw rest : Text) → Prop
  | literal base, raw, rest =>
    (∀ c ∈ rest.head?, base.isDigit c = false) ∧
      (base = .decimal → raw = ['0'] → ¬Announces rest)
  | _, _, _ => True

end Token

theorem takeWhile_append_of_head? {p : Char → Bool} {front rest : Text}
    (hfront : ∀ c ∈ front, p c = true) (hrest : ∀ c ∈ rest.head?, p c = false) :
    (front ++ rest).takeWhile p = front := by
  rw [List.takeWhile_append_of_pos hfront]
  cases rest with
  | nil => simp
  | cons c rest => simp [hrest c rfl]

theorem head?_dropWhile {p : Char → Bool} {text : Text} :
    ∀ c ∈ (text.dropWhile p).head?, p c = false := by
  intro c hc
  have h := List.head?_dropWhile_not p text
  rwa [hc] at h

theorem mem_takeWhile {p : Char → Bool} {text : Text} : ∀ c ∈ text.takeWhile p, p c = true :=
  List.all_eq_true.mp List.all_takeWhile

namespace Token

variable {raw rest text : Text} {token : Token} {length : Nat}

theorem symbol?_append (h : (raw, token) ∈ symbols) (rest : Text) :
    symbol? (raw ++ rest) = some (token, raw.length) := by
  have hraw : raw.isPrefixOf (raw ++ rest) = true :=
    List.isPrefixOf_iff_prefix.mpr (List.prefix_append raw rest)
  cases hfind : symbols.find? (·.1.isPrefixOf (raw ++ rest)) with
  | none => exact absurd hraw (List.find?_eq_none.mp hfind _ h)
  | some found =>
    have hmem := List.mem_of_find?_eq_some hfind
    have hprefix : found.1 <+: raw ++ rest :=
      List.isPrefixOf_iff_prefix.mp (by simpa using List.find?_some hfind)
    have hsame : (raw, token) = found := by
      rcases List.prefix_or_prefix_of_prefix (List.prefix_append raw rest) hprefix with hp | hp
      · exact eq_of_spelling_prefix _ h _ hmem hp
      · exact Eq.symm <| eq_of_spelling_prefix _ hmem _ h hp
    simp [symbol?, hfind, ← hsame]

theorem exists_of_symbol? (h : symbol? text = some (token, length)) :
    ∃ raw rest, text = raw ++ rest ∧ raw.length = length ∧ (raw, token) ∈ symbols := by
  obtain ⟨⟨raw, found⟩, hfind, heq⟩ := Option.map_eq_some_iff.mp h
  obtain ⟨rfl, rfl⟩ : found = token ∧ raw.length = length := by simpa using heq
  have hfound : raw.isPrefixOf text = true := by simpa using List.find?_some hfind
  obtain ⟨rest, rfl⟩ := List.isPrefixOf_iff_prefix.mp hfound
  exact ⟨raw, rest, rfl, rfl, List.mem_of_find?_eq_some hfind⟩

theorem symbol_shape : ∀ x ∈ symbols, x.1 ≠ [] ∧
    (∀ c ∈ x.1.head?, Base.hexadecimal.isDigit c = false ∧ Base.ofLetter? c = none) ∧
    ∀ c ∈ x.1, c.utf8Size = 1 ∧ Lexeme.isBlank c = false := by
  have htable : symbols.all fun x => !x.1.isEmpty &&
      x.1.head?.all (fun c => !Base.hexadecimal.isDigit c && (Base.ofLetter? c).isNone) &&
      x.1.all fun c => c.utf8Size == 1 && !Lexeme.isBlank c := by decide
  intro x hx
  have hrow := List.all_eq_true.mp htable x hx
  rw [Bool.and_eq_true, Bool.and_eq_true] at hrow
  obtain ⟨⟨hne, hhead⟩, hchars⟩ := hrow
  refine ⟨by simpa using hne, ?_, by simpa using hchars⟩
  intro c hc
  rw [Option.mem_def.mp hc] at hhead
  simpa using hhead

end Token

namespace Base

variable {base : Base} {letter : Char} {text : Text}

theorem ofLetter?_ne_decimal (h : ofLetter? letter = some base) : base ≠ decimal := by
  unfold ofLetter? at h
  split at h
  · cases h; decide
  · split at h
    · cases h; decide
    · cases h

theorem isDigit_of_ofLetter? (h : ofLetter? letter = some base) :
    decimal.isDigit letter = false := by
  cases hdigit : decimal.isDigit letter with
  | false => rfl
  | true => simp [ofLetter?_of_isDigit_decimal hdigit] at h

theorem isMarker_of_ofLetter? (h : ofLetter? letter = some base) : base.IsMarker ['0', letter] := by
  cases base with
  | decimal => exact absurd rfl (ofLetter?_ne_decimal h)
  | binary => exact ⟨letter, h, rfl⟩
  | hexadecimal => exact ⟨letter, h, rfl⟩

theorem IsMarker.exists_letter {mark : Text} (h : base.IsMarker mark) (hne : base ≠ decimal) :
    ∃ letter, ofLetter? letter = some base ∧ mark = ['0', letter] := by
  cases base with
  | decimal => exact absurd rfl hne
  | binary => exact h
  | hexadecimal => exact h

theorem length_marker (h : ofLetter? letter = some base) : base.marker.length = 2 := by
  cases base with
  | decimal => exact absurd rfl (ofLetter?_ne_decimal h)
  | binary => rfl
  | hexadecimal => rfl

theorem announced_of_ofLetter? (h : ofLetter? letter = some base) :
    announced ('0' :: letter :: text) = base := by
  simp [announced, h]

theorem announced_cases (text : Text) : announced text = decimal ∨
    ∃ letter base later, text = '0' :: letter :: later ∧ ofLetter? letter = some base := by
  unfold announced
  split
  · rename_i letter later
    cases h : ofLetter? letter with
    | none => exact Or.inl rfl
    | some base => exact Or.inr ⟨letter, base, later, rfl, h⟩
  · exact Or.inl rfl

end Base

namespace Token

variable {raw digits rest later text : Text} {token : Token} {base : Base} {letter : Char}
  {length : Nat}

theorem longestLiteral_marked (hletter : Base.ofLetter? letter = some base)
    (hne : later.takeWhile base.isDigit ≠ []) : longestLiteral ('0' :: letter :: later) =
      (base, 2 + (later.takeWhile base.isDigit).length) := by
  simp [longestLiteral, Base.announced_of_ofLetter? hletter, Base.length_marker hletter, hne]

theorem longestLiteral_unmarked (hletter : Base.ofLetter? letter = some base)
    (hnil : later.takeWhile base.isDigit = []) :
    longestLiteral ('0' :: letter :: later) = (.decimal, 1) := by
  have hzero : Base.decimal.isDigit '0' = true := by decide
  simp [longestLiteral, Base.announced_of_ofLetter? hletter, Base.length_marker hletter, hnil,
    hzero, Base.isDigit_of_ofLetter? hletter]

theorem longestLiteral_decimal (h : Base.announced text = .decimal) :
    longestLiteral text = (.decimal, (text.takeWhile Base.decimal.isDigit).length) := by
  simp [longestLiteral, h, Base.marker]

theorem not_announces_of_announced (h : Base.announced ('0' :: rest) = .decimal) :
    ¬Announces rest := by
  rintro ⟨letter, base, digit, later, rfl, hletter, -⟩
  rw [Base.announced_of_ofLetter? hletter] at h
  exact Base.ofLetter?_ne_decimal hletter h

theorem announces_cons_iff (hletter : Base.ofLetter? letter = some base) :
    Announces (letter :: later) ↔ later.takeWhile base.isDigit ≠ [] := by
  constructor
  · rintro ⟨letter', base', digit, later', heq, hletter', hdigit⟩
    obtain ⟨rfl, rfl⟩ := List.cons.inj heq
    obtain rfl : base = base' := Option.some.inj (hletter.symm.trans hletter')
    simp [hdigit]
  · intro hne
    cases later with
    | nil => exact absurd rfl hne
    | cons digit later =>
      refine ⟨letter, base, digit, later, rfl, hletter, ?_⟩
      cases h : base.isDigit digit with
      | true => rfl
      | false => simp [h] at hne

def StartsLiteral (text : Text) (base : Base) (length : Nat) : Prop :=
  ∃ raw rest, text = raw ++ rest ∧ raw.length = length ∧ base.IsNumeral raw ∧
    (literal base).Ends raw rest

theorem startsLiteral_decimal {c : Char} (hc : Base.decimal.isDigit c = true)
    (hdec : Base.announced (c :: text) = .decimal) :
    StartsLiteral (c :: text) .decimal ((c :: text).takeWhile Base.decimal.isDigit).length := by
  have hdigits : ∀ d ∈ c :: text.takeWhile Base.decimal.isDigit, Base.decimal.isDigit d = true := by
    rintro d (_ | ⟨_, hd⟩)
    · exact hc
    · exact mem_takeWhile d hd
  refine ⟨c :: text.takeWhile Base.decimal.isDigit, text.dropWhile Base.decimal.isDigit, by simp,
    by simp [hc], ⟨[], _, rfl, rfl, by simp, hdigits⟩, head?_dropWhile, ?_⟩
  intro _ hraw
  obtain ⟨rfl, hnil⟩ := List.cons.inj hraw
  have hrest : text.dropWhile Base.decimal.isDigit = text := by
    simpa [hnil] using List.takeWhile_append_dropWhile (p := Base.decimal.isDigit) (l := text)
  rw [hrest]
  exact not_announces_of_announced hdec

theorem startsLiteral_unmarked (hletter : Base.ofLetter? letter = some base)
    (hnil : later.takeWhile base.isDigit = []) :
    StartsLiteral ('0' :: letter :: later) .decimal 1 := by
  have hzero : ∀ c ∈ ['0'], Base.decimal.isDigit c = true := List.forall_mem_singleton.mpr rfl
  refine ⟨['0'], letter :: later, rfl, rfl, ⟨[], ['0'], rfl, rfl, by simp, hzero⟩, ?_, ?_⟩
  · simpa using Base.isDigit_of_ofLetter? hletter
  · intro _ _ hannounces
    exact (announces_cons_iff hletter).mp hannounces hnil

theorem startsLiteral_marked (hletter : Base.ofLetter? letter = some base)
    (hne : later.takeWhile base.isDigit ≠ []) :
    StartsLiteral ('0' :: letter :: later) base (2 + (later.takeWhile base.isDigit).length) := by
  refine ⟨['0', letter] ++ later.takeWhile base.isDigit, later.dropWhile base.isDigit, by simp,
    List.length_append, ?_, head?_dropWhile, ?_⟩
  · exact ⟨_, _, rfl, Base.isMarker_of_ofLetter? hletter, hne, mem_takeWhile⟩
  · intro hdec
    exact absurd hdec (Base.ofLetter?_ne_decimal hletter)

theorem startsLiteral_longestLiteral {c : Char} (hc : Base.decimal.isDigit c = true) :
    StartsLiteral (c :: text) (longestLiteral (c :: text)).1 (longestLiteral (c :: text)).2 := by
  rcases Base.announced_cases (c :: text) with hdec | ⟨letter, base, later, heq, hletter⟩
  · rw [longestLiteral_decimal hdec]
    exact startsLiteral_decimal hc hdec
  · rw [heq]
    by_cases hnil : later.takeWhile base.isDigit = []
    · rw [longestLiteral_unmarked hletter hnil]
      exact startsLiteral_unmarked hletter hnil
    · rw [longestLiteral_marked hletter hnil]
      exact startsLiteral_marked hletter hnil

theorem longestLiteral_append_decimal (hne : digits ≠ [])
    (hdigits : ∀ c ∈ digits, Base.decimal.isDigit c = true)
    (hend : (literal .decimal).Ends digits rest) :
    longestLiteral (digits ++ rest) = (.decimal, digits.length) := by
  obtain ⟨hhead, hzero⟩ := hend
  rcases Base.announced_cases (digits ++ rest) with hdec | ⟨letter, base, later, heq, hletter⟩
  · rw [longestLiteral_decimal hdec, takeWhile_append_of_head? hdigits hhead]
  · match digits, hne with
    | [d], _ =>
      obtain ⟨rfl, rfl⟩ := List.cons.inj heq
      have hnil : later.takeWhile base.isDigit = [] :=
        Classical.not_not.mp fun h => hzero rfl rfl ((announces_cons_iff hletter).mpr h)
      exact longestLiteral_unmarked hletter hnil
    | d :: d' :: digits, _ =>
      obtain ⟨rfl, hlater⟩ := List.cons.inj heq
      obtain ⟨rfl, -⟩ := List.cons.inj hlater
      have hdigit := hdigits d' (by simp)
      rw [Base.isDigit_of_ofLetter? hletter] at hdigit
      cases hdigit

theorem longestLiteral_append (hraw : base.IsNumeral raw) (hend : (literal base).Ends raw rest) :
    longestLiteral (raw ++ rest) = (base, raw.length) := by
  obtain ⟨mark, digits, rfl, hmark, hne, hdigits⟩ := hraw
  by_cases hbase : base = .decimal
  · subst hbase
    obtain rfl : mark = [] := hmark
    exact longestLiteral_append_decimal hne hdigits hend
  · obtain ⟨letter, hletter, rfl⟩ := hmark.exists_letter hbase
    have htake : (digits ++ rest).takeWhile base.isDigit = digits :=
      takeWhile_append_of_head? hdigits hend.1
    have hlong := longestLiteral_marked hletter (htake.symm ▸ hne)
    rw [htake] at hlong
    exact hlong.trans (by rw [List.length_append]; rfl)

theorem exists_digit_of_isNumeral (h : base.IsNumeral raw) :
    ∃ c later, raw = c :: later ∧ Base.decimal.isDigit c = true := by
  obtain ⟨mark, digits, rfl, hmark, hne, hdigits⟩ := h
  by_cases hbase : base = .decimal
  · subst hbase
    obtain rfl : mark = [] := hmark
    obtain ⟨c, later, rfl⟩ := List.exists_cons_of_ne_nil hne
    exact ⟨c, later, rfl, hdigits c (by simp)⟩
  · obtain ⟨letter, -, rfl⟩ := hmark.exists_letter hbase
    exact ⟨'0', letter :: digits, rfl, by decide⟩

theorem exists_of_mem_symbols (h : (raw, token) ∈ symbols) :
    ∃ c later, raw = c :: later ∧ Base.decimal.isDigit c = false := by
  obtain ⟨hne, hhead, -⟩ := symbol_shape _ h
  obtain ⟨c, later, rfl⟩ := List.exists_cons_of_ne_nil hne
  refine ⟨c, later, rfl, ?_⟩
  cases hc : Base.decimal.isDigit c with
  | false => rfl
  | true => exact absurd (Base.isDigit_hexadecimal hc) (by simp [(hhead c rfl).1])

theorem symbol_longest? (h : (raw, token) ∈ symbols) :
    longest? (raw ++ rest) = some (token, raw.length) := by
  have hsymbol := symbol?_append h rest
  obtain ⟨c, later, rfl, hc⟩ := exists_of_mem_symbols h
  rw [List.cons_append] at hsymbol ⊢
  simp [longest?, hc, hsymbol]

theorem isLiteral_of_mem_symbols (h : (raw, token) ∈ symbols) : token.isLiteral = false :=
  (by decide : ∀ x ∈ symbols, x.2.isLiteral = false) _ h

theorem isSpelling_of_mem_symbols (h : (raw, token) ∈ symbols) : token.IsSpelling raw := by
  have hliteral := isLiteral_of_mem_symbols h
  cases token with
  | literal => cases hliteral
  | _ => exact h

theorem ends_of_mem_symbols (h : (raw, token) ∈ symbols) : token.Ends raw rest := by
  have hliteral := isLiteral_of_mem_symbols h
  cases token with
  | literal => cases hliteral
  | _ => trivial

theorem longest?_append (hraw : token.IsSpelling raw) (hend : token.Ends raw rest) :
    longest? (raw ++ rest) = some (token, raw.length) := by
  cases token with
  | literal base =>
    have hlong := longestLiteral_append hraw hend
    obtain ⟨c, later, rfl, hc⟩ := exists_digit_of_isNumeral hraw
    rw [List.cons_append] at hlong ⊢
    simp [longest?, hc, hlong]
  | _ => exact symbol_longest? hraw

theorem exists_of_longest? (h : longest? text = some (token, length)) :
    ∃ raw rest, text = raw ++ rest ∧ raw.length = length ∧ token.IsSpelling raw ∧
      token.Ends raw rest := by
  cases text with
  | nil => cases h
  | cons c text =>
    cases hc : Base.decimal.isDigit c with
    | true =>
      obtain ⟨rfl, rfl⟩ : literal (longestLiteral (c :: text)).1 = token ∧
          (longestLiteral (c :: text)).2 = length := by simpa [longest?, hc] using h
      exact startsLiteral_longestLiteral hc
    | false =>
      have hsymbol : symbol? (c :: text) = some (token, length) := by simpa [longest?, hc] using h
      obtain ⟨raw, rest, heq, hlength, hmem⟩ := exists_of_symbol? hsymbol
      exact ⟨raw, rest, heq, hlength, isSpelling_of_mem_symbols hmem, ends_of_mem_symbols hmem⟩

theorem letter_shape (h : Base.ofLetter? letter = some base) :
    letter.utf8Size = 1 ∧ Lexeme.isBlank letter = false := by
  have hmem : letter ∈ ['b', 'B', 'x', 'X'] := by
    unfold Base.ofLetter? at h
    grind
  simp only [List.mem_cons, List.not_mem_nil, or_false] at hmem
  rcases hmem with rfl | rfl | rfl | rfl <;> decide

theorem ofLetter?_of_isBlank {c : Char} (h : Lexeme.isBlank c = true) :
    Base.ofLetter? c = none := by
  cases hletter : Base.ofLetter? c with
  | none => rfl
  | some base => simp [(letter_shape hletter).2] at h

theorem digit_shape {c : Char} (h : base.isDigit c = true) :
    c.utf8Size = 1 ∧ Lexeme.isBlank c = false := by
  refine ⟨Base.utf8Size_of_isDigit h, ?_⟩
  have hne : ∀ blank, Base.hexadecimal.isDigit blank = false → c ≠ blank := by
    rintro blank hblank rfl
    simp [Base.isDigit_hexadecimal h] at hblank
  simp [Lexeme.isBlank, hne ' ' (by decide), hne '\t' (by decide)]

theorem numeral_shape (h : base.IsNumeral raw) :
    raw ≠ [] ∧ ∀ c ∈ raw, c.utf8Size = 1 ∧ Lexeme.isBlank c = false := by
  obtain ⟨mark, digits, rfl, hmark, hne, hdigits⟩ := h
  refine ⟨by simp [hne], fun c hc => ?_⟩
  rcases List.mem_append.mp hc with hc | hc
  · by_cases hbase : base = .decimal
    · subst hbase
      obtain rfl : mark = [] := hmark
      cases hc
    · obtain ⟨letter, hletter, rfl⟩ := hmark.exists_letter hbase
      rcases List.mem_cons.mp hc with rfl | hc
      · decide
      · rw [List.mem_singleton.mp hc]
        exact letter_shape hletter
  · exact digit_shape (hdigits c hc)

theorem IsSpelling.shape (h : token.IsSpelling raw) :
    raw ≠ [] ∧ ∀ c ∈ raw, c.utf8Size = 1 ∧ Lexeme.isBlank c = false := by
  cases token with
  | literal base => exact numeral_shape h
  | _ => exact ⟨(symbol_shape _ h).1, (symbol_shape _ h).2.2⟩

theorem IsSpelling.size (h : token.IsSpelling raw) : Text.size raw = raw.length := by
  have hone := h.shape.2
  clear h
  induction raw with
  | nil => rfl
  | cons c raw ih =>
    have hrest := ih fun d hd => hone d (List.mem_cons_of_mem _ hd)
    rw [Text.size_cons, (hone c List.mem_cons_self).1, hrest, List.length_cons, Nat.add_comm]

end Token

theorem operator_mem_symbols (op : BinaryOp) : (op.symbol, .operator op) ∈ Token.symbols := by
  have hmem : op ∈ BinaryOp.all := BinaryOp.mem_all op
  exact List.mem_append_right _ (List.mem_map_of_mem hmem)

theorem complement_mem_symbols : (['~'], .complement) ∈ Token.symbols := by decide

theorem openParen_mem_symbols : (['('], .openParen) ∈ Token.symbols := by decide

theorem closeParen_mem_symbols : ([')'], .closeParen) ∈ Token.symbols := by decide

/-- A literal ends before this text. -/
def Bounds (rest : Text) : Prop :=
  ∀ c ∈ rest.head?, Base.hexadecimal.isDigit c = false ∧ Base.ofLetter? c = none

theorem bounds_nil : Bounds [] := by
  intro c hc
  cases hc

theorem bounds_append {raw : Text} {token : Token} (h : (raw, token) ∈ Token.symbols)
    (rest : Text) : Bounds (raw ++ rest) := by
  obtain ⟨hne, hhead, -⟩ := Token.symbol_shape _ h
  obtain ⟨c, raw, rfl⟩ := List.exists_cons_of_ne_nil hne
  exact hhead

theorem bounds_of_isBlank {c : Char} (h : Lexeme.isBlank c = true) (rest : Text) :
    Bounds (c :: rest) := by
  have hdigit : Base.hexadecimal.isDigit c = false := by
    cases hdigit : Base.hexadecimal.isDigit c with
    | false => rfl
    | true => simp [(Token.digit_shape hdigit).2] at h
  simpa [Bounds] using ⟨hdigit, Token.ofLetter?_of_isBlank h⟩

theorem Bounds.ends {base : Base} {raw rest : Text} (h : Bounds rest) :
    (Token.literal base).Ends raw rest := by
  constructor
  · intro c hc
    cases hdigit : base.isDigit c with
    | false => rfl
    | true =>
      have hhex := Base.isDigit_hexadecimal hdigit
      rw [(h c hc).1] at hhex
      cases hhex
  · rintro - - ⟨letter, base, digit, later, rfl, hletter, -⟩
    simp [(h letter rfl).2] at hletter

theorem Bounds.token_ends {token : Token} {raw rest : Text} (h : Bounds rest) :
    token.Ends raw rest := by
  cases token with
  | literal => exact h.ends
  | _ => trivial

theorem Token.Ends.of_head? {token : Token} {raw rest rest' : Text} (h : token.Ends raw rest)
    (hhead : rest'.head? = rest.head?) (hletter : ∀ c ∈ rest.head?, Base.ofLetter? c = none) :
    token.Ends raw rest' := by
  cases token with
  | literal base =>
    refine ⟨by rw [hhead]; exact h.1, ?_⟩
    rintro - - ⟨letter, base', digit, later, rfl, hsome, -⟩
    cases hsome.symm.trans (hletter letter hhead.symm)
  | _ => trivial

end WordCalc
