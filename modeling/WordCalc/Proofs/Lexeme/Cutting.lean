import WordCalc.Proofs.Lexeme.Splitting

/-! # Cut texts

Cutting a covered text keeps the lexemes in front of the cut. What is left of a lexeme across the
cut is a numeral, or its last character starts no token.
-/

namespace WordCalc

variable {rest text front back raw : Text} {position start : Nat} {token : Token} {base : Base}
  {items : List Lexeme}

namespace Text

theorem length_le_size (text : Text) : text.length ≤ text.size := by
  induction text with
  | nil => exact Nat.le_refl _
  | cons c text ih =>
    have := c.utf8Size_pos
    rw [List.length_cons, size_cons]
    omega

theorem exists_append_of_size {n : Nat} (h : text.size = text.length) (hn : n ≤ text.size) :
    ∃ front back, text = front ++ back ∧ size front = n := by
  refine ⟨text.take n, text.drop n, (List.take_append_drop n text).symm, ?_⟩
  have hfront := length_le_size (text.take n)
  have hback := length_le_size (text.drop n)
  have hsum : size (text.take n) + size (text.drop n) = size text := by
    rw [← size_append, List.take_append_drop]
  rw [List.length_take] at hfront
  rw [List.length_drop] at hback
  omega

end Text

/-- What is left of a spelling whose end is cut off. -/
inductive LeavesOf (token : Token) (front : Text) : Prop
  | numeral {base : Base} (token_eq : token = .literal base) (numeral : base.IsNumeral front)
  | zero {base : Base} (token_eq : token = .literal base) (front_eq : front = ['0'])
  | letter {base : Base} {letter : Char} (token_eq : token = .literal base)
      (letter_eq : Base.ofLetter? letter = some base) (front_eq : front = ['0', letter])
  | operator {c : Char} (front_eq : front = [c]) (c_eq : c = '>' ∨ c = '<')

theorem Base.isNumeral_zero : decimal.IsNumeral ['0'] :=
  ⟨[], ['0'], rfl, rfl, by simp, List.forall_mem_singleton.mpr rfl⟩

theorem leavesOf_numeral (h : base.IsNumeral (front ++ back)) (hfront : front ≠ []) :
    LeavesOf (.literal base) front := by
  obtain ⟨mark, digits, heq, hmark, -, hdigits⟩ := h
  rcases List.append_eq_append_iff.mp heq with ⟨mid, rfl, -⟩ | ⟨mid, rfl, rfl⟩
  · by_cases hbase : base = .decimal
    · subst hbase
      exact absurd (List.append_eq_nil_iff.mp hmark).1 hfront
    · obtain ⟨letter, hletter, hmark⟩ := hmark.exists_letter hbase
      rcases List.append_eq_cons_iff.mp hmark with ⟨rfl, -⟩ | ⟨later, rfl, hlater⟩
      · exact absurd rfl hfront
      · rcases List.append_eq_cons_iff.mp hlater.symm with ⟨rfl, -⟩ | ⟨last, rfl, hlast⟩
        · exact .zero rfl rfl
        · rw [(List.append_eq_nil_iff.mp hlast.symm).1]
          exact .letter rfl hletter rfl
  · by_cases hmid : mid = []
    · subst hmid
      rw [List.append_nil] at hfront ⊢
      by_cases hbase : base = .decimal
      · subst hbase
        exact absurd hmark hfront
      · obtain ⟨letter, hletter, rfl⟩ := hmark.exists_letter hbase
        exact .letter rfl hletter rfl
    · exact .numeral rfl ⟨mark, mid, rfl, hmark, hmid, fun c hc => hdigits c (by simp [hc])⟩

theorem symbol_pair : ∀ x ∈ Token.symbols, ∀ c d later, x.1 = c :: d :: later →
    later = [] ∧ (c = '>' ∨ c = '<') := by
  have htable : ∀ x ∈ Token.symbols, x.1.length ≤ 2 ∧
      (1 < x.1.length → x.1.head? = some '>' ∨ x.1.head? = some '<') := by decide
  intro x hx c d later heq
  obtain ⟨hlength, hhead⟩ := htable x hx
  rw [heq] at hlength hhead
  have hlater : later.length = 0 := by simpa using hlength
  exact ⟨List.eq_nil_of_length_eq_zero hlater, by simpa using hhead (by simp)⟩

theorem leavesOf_symbol (h : (front ++ back, token) ∈ Token.symbols) (hfront : front ≠ [])
    (hback : back ≠ []) : LeavesOf token front := by
  match front, back, hfront, hback with
  | [c], d :: back, _, _ =>
    exact .operator rfl (symbol_pair _ h c d back rfl).2
  | c :: d :: front, back, _, hback =>
    have hnil := (symbol_pair _ h c d (front ++ back) rfl).1
    exact absurd (List.append_eq_nil_iff.mp hnil).2 hback

theorem Token.IsSpelling.leavesOf (h : token.IsSpelling (front ++ back)) (hfront : front ≠ [])
    (hback : back ≠ []) : LeavesOf token front := by
  cases token with
  | literal base => exact leavesOf_numeral h hfront
  | _ => exact leavesOf_symbol h hfront hback

/-- The first of the lexemes starts at the position, with what is left in front of the cut, and goes
on behind the cut. -/
inductive Straddles : (left back : Text) → Nat → List Lexeme → Prop
  | lexeme {token : Token} {left right behind : Text} {position : Nat} {items : List Lexeme}
      (left_ne : left ≠ []) (right_ne : right ≠ []) (spelling : token.IsSpelling (left ++ right)) :
      Straddles left (right ++ behind) position
        (⟨token, ⟨position, position + ((left ++ right).length - 1)⟩⟩ :: items)

namespace CoversBefore

/-- The cut falls between lexemes or into one of them. -/
def Cuts (rest : Text) (position : Nat) (front back : Text) (items : List Lexeme) : Prop :=
  ∃ before left kept later, front = before ++ left ∧ items = kept ++ later ∧
    CoversBefore (left ++ (back ++ rest)) position before kept ∧
    (left = [] ∨ Straddles left back (position + before.length) later)

theorem cuts_nil : Cuts rest position [] back items :=
  ⟨[], [], [], items, rfl, rfl, .nil _, Or.inl rfl⟩

theorem Cuts.blank {c : Char} (hblank : Lexeme.isBlank c = true)
    (h : Cuts rest (position + 1) front back items) :
    Cuts rest position (c :: front) back items := by
  obtain ⟨before, left, kept, later, rfl, rfl, hkept, hcut⟩ := h
  have hnext : position + 1 + before.length = position + (c :: before).length := by
    rw [List.length_cons]
    omega
  rw [hnext] at hcut
  exact ⟨c :: before, left, kept, later, rfl, rfl, .blank hblank hkept, hcut⟩

theorem Cuts.lexeme (hraw : token.IsSpelling raw) (hend : token.Ends raw (front ++ (back ++ rest)))
    (h : Cuts rest (position + raw.length) front back items) :
    Cuts rest position (raw ++ front) back
      (⟨token, ⟨position, position + (raw.length - 1)⟩⟩ :: items) := by
  obtain ⟨before, left, kept, later, rfl, rfl, hkept, hcut⟩ := h
  have hnext : position + raw.length + before.length = position + (raw ++ before).length := by
    rw [List.length_append]
    omega
  rw [hnext] at hcut
  refine ⟨raw ++ before, left, _ :: kept, later, (List.append_assoc ..).symm, rfl,
    .lexeme hraw ?_ hkept, hcut⟩
  simpa using hend

theorem cuts_lexeme {right behind : Text} (hraw : token.IsSpelling (front ++ right))
    (hend : token.Ends (front ++ right) (behind ++ rest)) :
    Cuts rest position front (right ++ behind)
      (⟨token, ⟨position, position + ((front ++ right).length - 1)⟩⟩ :: items) := by
  by_cases hfront : front = []
  · subst hfront
    exact cuts_nil
  by_cases hright : right = []
  · subst hright
    rw [List.append_nil] at hraw hend ⊢
    have hcut : Cuts rest position (front ++ []) behind
        (⟨token, ⟨position, position + (front.length - 1)⟩⟩ :: items) := .lexeme hraw hend cuts_nil
    rwa [List.append_nil] at hcut
  · exact ⟨[], front, [], _, rfl, rfl, .nil _, Or.inr (.lexeme hfront hright hraw)⟩

theorem cuts (h : CoversBefore rest position (front ++ back) items) :
    Cuts rest position front back items := by
  generalize htext : front ++ back = text at h
  induction h generalizing front with
  | nil position =>
    obtain ⟨rfl, rfl⟩ := List.append_eq_nil_iff.mp htext
    exact cuts_nil
  | @blank position c text items hblank h ih =>
    cases front with
    | nil => exact cuts_nil
    | cons d front =>
      obtain ⟨rfl, hrest⟩ := List.cons.inj htext
      exact (ih hrest).blank hblank
  | @lexeme position token raw text items hraw hend h ih =>
    rcases List.append_eq_append_iff.mp htext with ⟨right, rfl, rfl⟩ | ⟨mid, rfl, rfl⟩
    · exact cuts_lexeme hraw hend
    · exact (ih rfl).lexeme hraw (by simpa using hend)

variable {before left : Text} {kept later : List Lexeme}

theorem clean_cut (h : CoversBefore rest position before kept) :
    CoversBefore [] position before kept := h.switch_of_bounds bounds_nil

theorem kept_cut (h : CoversBefore (left ++ rest) position before kept)
    (hcut : Straddles left back start later) : CoversBefore left position before kept := by
  cases hcut with
  | @lexeme token _ right behind _ items hleft hright hspelling =>
    obtain ⟨c, left, rfl⟩ := List.exists_cons_of_ne_nil hleft
    have hletter : Base.ofLetter? c = none := hspelling.ofLetter?_head? c rfl
    exact h.switch fun last _ raw hend => hend.of_head? rfl (by simpa using hletter)

theorem numeral_cut (h : CoversBefore left position before kept) (hleft : base.IsNumeral left) :
    CoversBefore [] position (before ++ left) (kept ++
      [⟨.literal base, ⟨position + before.length,
        position + before.length + (left.length - 1)⟩⟩]) := by
  have hnil : CoversBefore [] (position + before.length) (left ++ [])
      [⟨.literal base, ⟨position + before.length,
        position + before.length + (left.length - 1)⟩⟩] :=
    .lexeme hleft bounds_nil.ends (.nil _)
  rw [List.append_nil] at hnil
  exact append (by rwa [List.append_nil]) hnil

/-- The zero that is left of a marker is a literal of its own, and the letter is left behind it. -/
theorem letter_cut {letter : Char} (h : CoversBefore ['0', letter] position before kept)
    (hletter : Base.ofLetter? letter = some base) :
    CoversBefore [letter] position (before ++ ['0'])
      (kept ++ [⟨.literal .decimal, ⟨position + before.length, position + before.length⟩⟩]) := by
  have hzero : (Token.literal .decimal).IsSpelling ['0'] := Base.isNumeral_zero
  have hend : (Token.literal .decimal).Ends ['0'] [letter] := by
    refine ⟨by simpa using Base.isDigit_of_ofLetter? hletter, ?_⟩
    rintro - - ⟨_, _, digit, later, heq, -⟩
    simp at heq
  have hliteral : CoversBefore [letter] (position + before.length) (['0'] ++ [])
      [⟨.literal .decimal, ⟨position + before.length, position + before.length⟩⟩] :=
    .lexeme hzero hend (.nil _)
  exact append h hliteral

end CoversBefore

/-- Where the reading of a cut text can be stuck. -/
def stuck : Text := ['>', '<', 'x', 'X', 'b', 'B']

theorem stuck_shape : ∀ c ∈ stuck,
    c.utf8Size = 1 ∧ Lexeme.isBlank c = false ∧ Token.longest? [c] = none := by
  intro c h
  simp only [stuck, List.mem_cons, List.not_mem_nil, or_false] at h
  obtain rfl | rfl | rfl | rfl | rfl | rfl := h <;> exact ⟨rfl, rfl, rfl⟩

theorem mem_stuck_of_ofLetter? {letter : Char} (h : Base.ofLetter? letter = some base) :
    letter ∈ stuck := by
  unfold Base.ofLetter? at h
  simp only [stuck, List.mem_cons]
  grind

theorem Lexeme.scan_stuck {c : Char} {before : Text} {kept : List Lexeme}
    (hsize : (before ++ [c]).size ≤ maxSize) (hkept : CoversBefore [c] 0 before kept)
    (hc : c ∈ stuck) :
    scan (before ++ [c]) = .error (.unexpectedCharacter c (.one ((before ++ [c]).size - 1))) := by
  obtain ⟨hone, hblank, hlong⟩ := stuck_shape c hc
  have hlast : (before ++ [c]).size - 1 = before.size := by
    rw [Text.size_concat before hone]
    rfl
  rw [hlast]
  exact (scan_eq_error_iff hsize).mpr ⟨before, c, [], kept, rfl, hkept, hblank, hlong, rfl⟩

end WordCalc
