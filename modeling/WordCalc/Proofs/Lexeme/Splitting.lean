import WordCalc.Proofs.Lexeme.Tiling

/-! # Scanning in parts

Scanning covers the beginning of a text in view of what follows there, and goes on behind it. What
follows matters only to a literal that stands last in the beginning. Every text is covered up to
its end or up to a character at which no token starts; there scanning fails.
-/

namespace WordCalc

variable {rest text raw : Text} {position : Nat} {token : Token} {item : Lexeme}
  {items later front back : List Lexeme}

/-- In front of the rest, the lexemes cover a text that starts at the position. -/
inductive CoversBefore (rest : Text) : Nat → Text → List Lexeme → Prop where
  | nil (position : Nat) : CoversBefore rest position [] []
  | blank {position : Nat} {c : Char} {text : Text} {items : List Lexeme} :
      Lexeme.isBlank c = true → CoversBefore rest (position + 1) text items →
      CoversBefore rest position (c :: text) items
  | lexeme {position : Nat} {token : Token} {raw text : Text} {items : List Lexeme} :
      token.IsSpelling raw → token.Ends raw (text ++ rest) →
      CoversBefore rest (position + raw.length) text items →
      CoversBefore rest position (raw ++ text)
        (⟨token, ⟨position, position + (raw.length - 1)⟩⟩ :: items)

namespace CoversBefore

theorem walk {α : Type} (atEnd : Nat → α) (stuck : Nat → Char → α) (push : Lexeme → α → α)
    (h : CoversBefore rest position text items) :
    Lexeme.walk atEnd stuck push 0 position (text ++ rest) =
      items.foldr push (Lexeme.walk atEnd stuck push 0 (position + text.length) rest) := by
  induction h with
  | nil => rfl
  | @blank position c text items hblank _ ih =>
    rw [List.cons_append, Lexeme.walk_blank _ _ _ hblank, ih, List.length_cons, Nat.add_assoc,
      Nat.add_comm 1]
  | @lexeme position token raw text items hraw hend _ ih =>
    rw [List.append_assoc, Lexeme.walk_append _ _ _ hraw hend, ih, List.length_append,
      ← Nat.add_assoc]
    rfl

theorem foldr_map_cons {ε : Type} (items : List Lexeme) (result : Except ε (List Lexeme)) :
    items.foldr (fun item items => items.map (item :: ·)) result = result.map (items ++ ·) := by
  induction items with
  | nil => cases result <;> rfl
  | cons item items ih =>
    rw [List.foldr_cons, ih]
    cases result <;> rfl

theorem scanFrom (h : CoversBefore rest position text items) :
    Lexeme.scanFrom 0 position (text ++ rest) =
      (Lexeme.scanFrom 0 (position + text.length) rest).map (items ++ ·) := by
  rw [Lexeme.scanFrom_eq_walk, h.walk, ← Lexeme.scanFrom_eq_walk, foldr_map_cons]

theorem append {text' : Text} {items' : List Lexeme}
    (h : CoversBefore (text' ++ rest) position text items)
    (h' : CoversBefore rest (position + text.length) text' items') :
    CoversBefore rest position (text ++ text') (items ++ items') := by
  induction h with
  | nil => exact h'
  | @blank position c text items hblank _ ih =>
    have hnext : position + (c :: text).length = position + 1 + text.length := by
      rw [List.length_cons]
      omega
    rw [hnext] at h'
    exact .blank hblank (ih h')
  | @lexeme position token raw text items hraw hend _ ih =>
    have hnext : position + (raw ++ text).length = position + raw.length + text.length := by
      rw [List.length_append]
      omega
    rw [hnext] at h'
    rw [← List.append_assoc] at hend
    rw [List.append_assoc]
    exact .lexeme hraw hend (ih h')

theorem covers (h : CoversBefore rest position text items)
    (hrest : Covers (position + text.length) rest later) :
    Covers position (text ++ rest) (items ++ later) := by
  have hscan := h.scanFrom
  rw [Lexeme.scanFrom_of_covers hrest] at hscan
  exact Lexeme.covers_of_scanFrom hscan

theorem covers_rest (h : CoversBefore rest position text items)
    (hall : Covers position (text ++ rest) (items ++ later)) :
    Covers (position + text.length) rest later := by
  have hscan := Lexeme.scanFrom_of_covers hall
  rw [h.scanFrom] at hscan
  cases hrest : Lexeme.scanFrom 0 (position + text.length) rest with
  | error e =>
    rw [hrest] at hscan
    cases hscan
  | ok found =>
    rw [hrest] at hscan
    obtain rfl : found = later := List.append_cancel_left (Except.ok.inj hscan)
    exact Lexeme.covers_of_scanFrom hrest

end CoversBefore

theorem covers_iff : Covers position text items ↔ ∃ body,
    items = body ++ [⟨.endOfText, .one (position + text.length)⟩] ∧
      CoversBefore [] position text body := by
  constructor
  · intro h
    induction h with
    | nil position => exact ⟨[], rfl, .nil position⟩
    | @blank position c text items hblank _ ih =>
      obtain ⟨body, rfl, h⟩ := ih
      refine ⟨body, ?_, .blank hblank h⟩
      rw [List.length_cons, Nat.add_assoc, Nat.add_comm 1]
    | @lexeme position token raw text items hraw hend _ ih =>
      obtain ⟨body, rfl, h⟩ := ih
      rw [← List.append_nil text] at hend
      refine ⟨_ :: body, ?_, .lexeme hraw hend h⟩
      rw [List.length_append, Nat.add_assoc]
      rfl
  · rintro ⟨body, rfl, h⟩
    have hcovers := h.covers (.nil _)
    rwa [List.append_nil] at hcovers

namespace CoversBefore

section Middle

theorem exists_append (h : CoversBefore rest position text (front ++ back)) :
    ∃ before after, text = before ++ after ∧
      CoversBefore (after ++ rest) position before front ∧
      CoversBefore rest (position + before.length) after back := by
  generalize hitems : front ++ back = items at h
  induction h generalizing front with
  | nil position =>
    obtain ⟨rfl, rfl⟩ := List.append_eq_nil_iff.mp hitems
    exact ⟨[], [], rfl, .nil _, .nil _⟩
  | @blank position c text items hblank h ih =>
    obtain ⟨before, after, rfl, hfront, hback⟩ := ih hitems
    refine ⟨c :: before, after, rfl, .blank hblank hfront, ?_⟩
    rwa [List.length_cons, Nat.add_comm before.length, ← Nat.add_assoc]
  | @lexeme position token raw text items hraw hend h ih =>
    cases front with
    | nil =>
      obtain rfl : back = _ := hitems
      exact ⟨[], _, rfl, .nil _, .lexeme hraw hend h⟩
    | cons item front =>
      obtain ⟨rfl, hrest⟩ := List.cons.inj hitems
      obtain ⟨before, after, rfl, hfront, hback⟩ := ih hrest
      rw [List.append_assoc] at hend
      refine ⟨raw ++ before, after, (List.append_assoc ..).symm, .lexeme hraw hend hfront, ?_⟩
      rwa [List.length_append, ← Nat.add_assoc]

theorem exists_cons (h : CoversBefore rest position text (item :: items)) :
    ∃ blanks raw after, text = blanks ++ (raw ++ after) ∧
      CoversBefore (raw ++ (after ++ rest)) position blanks [] ∧ item.token.IsSpelling raw ∧
      item.token.Ends raw (after ++ rest) ∧
      item.span = ⟨position + blanks.length, position + blanks.length + (raw.length - 1)⟩ ∧
      CoversBefore rest (position + blanks.length + raw.length) after items := by
  generalize hitems : item :: items = whole at h
  induction h with
  | nil => cases hitems
  | @blank position c text whole hblank h ih =>
    obtain ⟨blanks, raw, after, rfl, hblanks, hraw, hend, hspan, hafter⟩ := ih hitems
    have hnext : position + 1 + blanks.length = position + (c :: blanks).length := by
      rw [List.length_cons]
      omega
    rw [hnext] at hspan hafter
    exact ⟨c :: blanks, raw, after, rfl, .blank hblank hblanks, hraw, hend, hspan, hafter⟩
  | @lexeme position token raw text whole hraw hend h ih =>
    obtain ⟨rfl, rfl⟩ := List.cons.inj hitems
    exact ⟨[], raw, text, rfl, .nil _, hraw, hend, rfl, h⟩

/-- A text splits around the spelling of each of its lexemes. -/
theorem exists_middle (h : CoversBefore rest position text (front ++ item :: back)) :
    ∃ before raw after, text = before ++ (raw ++ after) ∧
      CoversBefore (raw ++ (after ++ rest)) position before front ∧ item.token.IsSpelling raw ∧
      item.span = ⟨position + before.length, position + before.length + (raw.length - 1)⟩ ∧
      CoversBefore rest (position + before.length + raw.length) after back := by
  obtain ⟨start, behind, rfl, hfront, hback⟩ := h.exists_append
  obtain ⟨blanks, raw, after, rfl, hblanks, hraw, -, hspan, hafter⟩ := hback.exists_cons
  rw [Nat.add_assoc position, ← List.length_append] at hspan hafter
  refine ⟨start ++ blanks, raw, after, by simp, ?_, hraw, hspan, hafter⟩
  have happend := append (by simpa using hfront) hblanks
  rwa [List.append_nil] at happend

end Middle

section Spans

theorem size_eq_length (h : CoversBefore rest position text items) : text.size = text.length := by
  induction h with
  | nil => rfl
  | blank hblank _ ih =>
    rw [Text.size_cons, ih, utf8Size_of_isBlank hblank, List.length_cons, Nat.add_comm]
  | lexeme hraw _ _ ih => rw [Text.size_append, ih, hraw.size, List.length_append]

theorem exists_select? (h : CoversBefore rest position text items) (before : Text)
    (hposition : before.size = position) (hitem : item ∈ items) :
    ∃ raw, item.token.IsSpelling raw ∧
      ∀ behind, item.span.select? (before ++ (text ++ behind)) = some raw := by
  induction h generalizing before with
  | nil => cases hitem
  | @blank position c text items hblank _ ih =>
    have hnext : (before ++ [c]).size = position + 1 := by
      rw [Text.size_append, hposition, Text.size_cons, utf8Size_of_isBlank hblank]
      rfl
    obtain ⟨raw, hraw, hselect⟩ := ih _ hnext hitem
    exact ⟨raw, hraw, by simpa using hselect⟩
  | @lexeme position token raw text items hraw _ _ ih =>
    subst hposition
    rcases List.mem_cons.mp hitem with rfl | hitem
    · refine ⟨raw, hraw, fun behind => ?_⟩
      rw [List.append_assoc]
      exact select?_spelling hraw
    · have hnext : (before ++ raw).size = before.size + raw.length := by
        rw [Text.size_append, hraw.size]
      obtain ⟨raw', hraw', hselect⟩ := ih _ hnext hitem
      exact ⟨raw', hraw', by simpa using hselect⟩

theorem exists_select?_self (h : CoversBefore rest 0 text items) :
    ∀ item ∈ items, ∃ raw, item.span.select? text = some raw := by
  intro item hitem
  obtain ⟨raw, -, hselect⟩ := h.exists_select? [] rfl hitem
  exact ⟨raw, by simpa using hselect []⟩

end Spans

section Rests

variable {rest' : Text}

theorem ofLetter?_head? (h : CoversBefore rest position text items) :
    ∀ c ∈ text.head?, Base.ofLetter? c = none := by
  cases h with
  | nil => simp
  | blank hblank _ => simpa using Token.ofLetter?_of_isBlank hblank
  | lexeme hraw _ _ =>
    obtain ⟨c, raw, rfl⟩ := List.exists_cons_of_ne_nil hraw.shape.1
    exact hraw.ofLetter?_head?

theorem eq_nil (h : CoversBefore rest position [] items) : items = [] := by
  generalize htext : [] = text at h
  cases h with
  | nil => rfl
  | blank => cases htext
  | lexeme hraw => exact absurd (List.append_eq_nil_iff.mp htext.symm).1 hraw.shape.1

theorem ends (h : CoversBefore rest position text items) (hend : token.Ends raw (text ++ rest))
    (hnil : text = [] → token.Ends raw rest') : token.Ends raw (text ++ rest') := by
  cases text with
  | nil => exact hnil rfl
  | cons c text =>
    cases token with
    | literal base =>
      refine ⟨by simpa using hend.1, ?_⟩
      rintro - - ⟨letter, base', digit, later, heq, hletter, -⟩
      have hnone : Base.ofLetter? letter = none :=
        (List.cons.inj heq).1 ▸ h.ofLetter?_head? c rfl
      cases hletter.symm.trans hnone
    | _ => trivial

/-- Another rest can follow if the last lexeme ends in front of it as well. -/
theorem switch (h : CoversBefore rest position text items)
    (hlast : ∀ last ∈ items.getLast?, ∀ raw, last.token.Ends raw rest → last.token.Ends raw rest') :
    CoversBefore rest' position text items := by
  induction h with
  | nil => exact .nil _
  | blank hblank _ ih => exact .blank hblank (ih hlast)
  | @lexeme position token raw text items hraw hend h ih =>
    refine .lexeme hraw (h.ends hend ?_) (ih fun last hmem => hlast last ?_)
    · rintro rfl
      obtain rfl := h.eq_nil
      exact hlast _ rfl raw hend
    · rw [Option.mem_def] at hmem
      simp [List.getLast?_cons, hmem]

theorem switch_of_bounds (h : CoversBefore rest position text items) (hbounds : Bounds rest') :
    CoversBefore rest' position text items :=
  h.switch fun _ _ _ _ => hbounds.token_ends

theorem bounds (h : CoversBefore rest position text items)
    (hfirst : ∀ first ∈ items.head?, first.token.isLiteral = false) (hrest : Bounds rest) :
    Bounds (text ++ rest) := by
  cases h with
  | nil => exact hrest
  | blank hblank _ => exact bounds_of_isBlank hblank _
  | @lexeme _ token raw _ _ hraw _ _ =>
    have hliteral : token.isLiteral = false := hfirst _ rfl
    rw [List.append_assoc]
    cases token with
    | literal => cases hliteral
    | _ => exact bounds_append hraw _

end Rests

section Terminals

/-- What a part of a text spells does not depend on where the part stands. -/
theorem spells {ν : Type} {value : Base → Text → Option ν}
    {terminals terminals' : List (Terminal ν)} (h : CoversBefore rest position text items)
    (before behind : Text) (hposition : before.size = position)
    (hw : Writes (valueAt value (before ++ (text ++ behind))) items terminals)
    (hrest : Spells value rest terminals') :
    Spells value (text ++ rest) (terminals ++ terminals') := by
  induction h generalizing before terminals with
  | nil =>
    obtain rfl : terminals = [] := by simpa [Writes] using hw.symm
    exact hrest
  | @blank position c text items hblank _ ih =>
    have hnext : (before ++ [c]).size = position + 1 := by
      rw [Text.size_append, hposition, Text.size_cons, utf8Size_of_isBlank hblank]
      rfl
    exact .blank hblank (ih _ hnext (by simpa using hw))
  | @lexeme position token raw text items hraw hend _ ih =>
    subst hposition
    have hnext : (before ++ raw).size = before.size + raw.length := by
      rw [Text.size_append, hraw.size]
    cases terminals with
    | nil => simp [Writes] at hw
    | cons t terminals =>
      obtain ⟨_, _, heq, ht, hw⟩ := writes_cons_iff.mp hw
      obtain ⟨rfl, rfl⟩ := List.cons.inj heq
      rw [List.append_assoc, terminal?_spelling hraw] at ht
      rw [List.append_assoc]
      exact .spelling hraw hend ht (ih _ hnext (by simpa using hw))

end Terminals

end CoversBefore

theorem Spells.append {ν : Type} {value : Base → Text → Option ν}
    {terminals terminals' : List (Terminal ν)} (h : Spells value text terminals)
    (hbounds : Bounds rest) (hrest : Spells value rest terminals') :
    Spells value (text ++ rest) (terminals ++ terminals') := by
  obtain ⟨body, last, hcovers, -, hw⟩ := h.covers []
  obtain ⟨items, heq, hitems⟩ := covers_iff.mp hcovers
  obtain ⟨rfl, -⟩ := List.append_inj' heq rfl
  exact (hitems.switch_of_bounds hbounds).spells [] [] rfl (by simpa using hw) hrest

theorem CoversBefore.scan (h : CoversBefore [] 0 text items) (hsize : text.size ≤ maxSize) :
    Lexeme.scan text = .ok (items ++ [⟨.endOfText, .one text.size⟩]) := by
  rw [Lexeme.scan_eq_ok_iff, h.size_eq_length]
  rw [h.size_eq_length] at hsize
  exact ⟨hsize, covers_iff.mpr ⟨items, by rw [Nat.zero_add], h⟩⟩

theorem Lexeme.exists_of_scan (h : scan text = .ok items) : ∃ body,
    items = body ++ [⟨.endOfText, .one text.size⟩] ∧ CoversBefore [] 0 text body := by
  obtain ⟨body, rfl, hbody⟩ := covers_iff.mp (scan_eq_ok_iff.mp h).2
  refine ⟨body, ?_, hbody⟩
  rw [hbody.size_eq_length, Nat.zero_add]

/-- A text is covered up to its end, or up to a character at which no token starts. -/
theorem exists_coversBefore (position : Nat) (text : Text) : ∃ before rest items,
    text = before ++ rest ∧ CoversBefore rest position before items ∧
      ∀ c later, rest = c :: later → Lexeme.isBlank c = false ∧ Token.longest? rest = none := by
  match text with
  | [] => exact ⟨[], [], [], rfl, .nil _, by simp⟩
  | c :: text =>
    cases hblank : Lexeme.isBlank c with
    | true =>
      obtain ⟨before, rest, items, rfl, h, hstuck⟩ := exists_coversBefore (position + 1) text
      exact ⟨c :: before, rest, items, rfl, .blank hblank h, hstuck⟩
    | false =>
      cases hlong : Token.longest? (c :: text) with
      | none =>
        refine ⟨[], c :: text, [], rfl, .nil _, ?_⟩
        rintro _ _ ⟨rfl, rfl⟩
        exact ⟨hblank, hlong⟩
      | some found =>
        obtain ⟨raw, behind, heq, -, hraw, hend⟩ := Token.exists_of_longest? hlong
        have hshorter : behind.length < (c :: text).length := by
          have hpos := List.length_pos_iff.mpr hraw.shape.1
          rw [heq, List.length_append]
          omega
        obtain ⟨before, rest, items, rfl, h, hstuck⟩ :=
          exists_coversBefore (position + raw.length) behind
        exact ⟨raw ++ before, rest, _, by rw [heq, List.append_assoc], .lexeme hraw hend h, hstuck⟩
termination_by text.length
decreasing_by
  · exact hshorter
  · exact Nat.lt_succ_self _

namespace Lexeme

theorem scanFrom_of_stuck {c : Char} {later : Text} (hblank : isBlank c = false)
    (hlong : Token.longest? (c :: later) = none) :
    scanFrom 0 position (c :: later) = .error (.unexpectedCharacter c (.one position)) := by
  simp [scanFrom, hblank, hlong]

/-- Scanning fails exactly at a character that neither is a blank nor starts a token. -/
theorem scanFrom_eq_error_iff {e : ReadError} : scanFrom 0 position text = .error e ↔
    ∃ before c later items, text = before ++ c :: later ∧
      CoversBefore (c :: later) position before items ∧ isBlank c = false ∧
      Token.longest? (c :: later) = none ∧
      e = .unexpectedCharacter c (.one (position + before.length)) := by
  constructor
  · intro h
    obtain ⟨before, rest, items, rfl, hbefore, hstuck⟩ := exists_coversBefore position text
    rw [hbefore.scanFrom] at h
    cases rest with
    | nil => cases h
    | cons c later =>
      obtain ⟨hblank, hlong⟩ := hstuck c later rfl
      rw [scanFrom_of_stuck hblank hlong] at h
      exact ⟨before, c, later, items, rfl, hbefore, hblank, hlong, (Except.error.inj h).symm⟩
  · rintro ⟨before, c, later, items, rfl, hbefore, hblank, hlong, rfl⟩
    rw [hbefore.scanFrom, scanFrom_of_stuck hblank hlong]
    rfl

theorem scan_eq_error_iff {e : ReadError} (hsize : text.size ≤ maxSize) : scan text = .error e ↔
    ∃ before c later items, text = before ++ c :: later ∧
      CoversBefore (c :: later) 0 before items ∧ isBlank c = false ∧
      Token.longest? (c :: later) = none ∧ e = .unexpectedCharacter c (.one before.size) := by
  rw [scan_of_le hsize, scanFrom_eq_error_iff]
  constructor
  · rintro ⟨before, c, later, items, heq, hbefore, hblank, hlong, rfl⟩
    exact ⟨before, c, later, items, heq, hbefore, hblank, hlong,
      by rw [hbefore.size_eq_length, Nat.zero_add]⟩
  · rintro ⟨before, c, later, items, heq, hbefore, hblank, hlong, rfl⟩
    exact ⟨before, c, later, items, heq, hbefore, hblank, hlong,
      by rw [hbefore.size_eq_length, Nat.zero_add]⟩

end Lexeme

end WordCalc
