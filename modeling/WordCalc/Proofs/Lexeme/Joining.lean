import WordCalc.Proofs.Lexeme.Failing

/-! # Texts joined by a blank

A blank keeps the lexemes of two texts apart. Scanning the joined text finds the lexemes of the
first text and then those of the second one at their new places, and it fails where scanning one of
the two fails.
-/

namespace WordCalc

variable {rest text text' raw later : Text} {position : Nat} {token : Token} {blank c : Char}
  {items items' : List Lexeme}

def Span.shift (distance : Nat) (span : Span) : Span :=
  ⟨span.first + distance, span.last + distance⟩

def Lexeme.shift (distance : Nat) (item : Lexeme) : Lexeme :=
  ⟨item.token, item.span.shift distance⟩

theorem Token.Ends.append_blank (h : token.Ends raw rest) (hblank : Lexeme.isBlank blank = true)
    (behind : Text) : token.Ends raw (rest ++ blank :: behind) := by
  cases token with
  | literal base =>
    cases rest with
    | nil => exact (bounds_of_isBlank hblank behind).ends
    | cons d rest =>
      refine ⟨h.1, fun hbase hzero hannounces => h.2 hbase hzero ?_⟩
      obtain ⟨letter, base', digit, later, heq, hletter, hdigit⟩ := hannounces
      obtain ⟨rfl, hlater⟩ := List.cons.inj heq
      cases rest with
      | nil =>
        obtain ⟨rfl, -⟩ := List.cons.inj hlater
        have hother : Lexeme.isBlank blank = false := (digit_shape hdigit).2
        simp [hother] at hblank
      | cons e rest =>
        obtain ⟨rfl, -⟩ := List.cons.inj hlater
        exact ⟨d, base', e, rest, rfl, hletter, hdigit⟩
  | _ => trivial

theorem Token.IsSpelling.prefix_of_append_blank (h : token.IsSpelling raw)
    (hblank : Lexeme.isBlank blank = true) (hstart : raw <+: text ++ blank :: rest) :
    raw <+: text := by
  obtain ⟨behind, heq⟩ := hstart
  rcases List.append_eq_append_iff.mp heq.symm with ⟨mid, rfl, hmid⟩ | ⟨mid, rfl, -⟩
  · cases mid with
    | nil => simp
    | cons d mid =>
      obtain ⟨rfl, -⟩ := List.cons.inj hmid
      have hother : Lexeme.isBlank blank = false := (h.shape.2 blank (by simp)).2
      simp [hother] at hblank
  · exact List.prefix_append raw mid

theorem Token.longest?_append_blank (h : longest? (c :: later) = none)
    (hblank : Lexeme.isBlank blank = true) (behind : Text) :
    longest? (c :: later ++ blank :: behind) = none := by
  cases hlong : longest? (c :: later ++ blank :: behind) with
  | none => rfl
  | some found =>
    obtain ⟨raw, rest, heq, -, hraw, -⟩ := exists_of_longest? hlong
    obtain ⟨mid, hmid⟩ := hraw.prefix_of_append_blank hblank ⟨rest, heq.symm⟩
    rw [← hmid] at h
    exact absurd h (hraw.longest?_ne_none mid)

namespace CoversBefore

theorem append_blank (h : CoversBefore rest position text items)
    (hblank : Lexeme.isBlank blank = true) (behind : Text) :
    CoversBefore (rest ++ blank :: behind) position text items :=
  h.switch fun _ _ _ hend => hend.append_blank hblank behind

theorem shift (distance : Nat) (h : CoversBefore rest position text items) :
    CoversBefore rest (position + distance) text (items.map (Lexeme.shift distance)) := by
  induction h with
  | nil => exact .nil _
  | @blank position c text items hblank _ ih =>
    rw [Nat.add_right_comm] at ih
    exact .blank hblank ih
  | @lexeme position token raw text items hraw hend _ ih =>
    rw [Nat.add_right_comm] at ih
    have hitem : Lexeme.shift distance ⟨token, ⟨position, position + (raw.length - 1)⟩⟩ =
        ⟨token, ⟨position + distance, position + distance + (raw.length - 1)⟩⟩ := by
      rw [Nat.add_right_comm]
      rfl
    rw [List.map_cons, hitem]
    exact .lexeme hraw hend ih

/-- Behind a text and a blank, a second text is covered by the same lexemes at their new places. -/
theorem join (h : CoversBefore [] 0 text items) (h' : CoversBefore rest 0 text' items')
    (hblank : Lexeme.isBlank blank = true) :
    CoversBefore rest 0 (text ++ blank :: text')
      (items ++ items'.map (Lexeme.shift (text.size + 1))) := by
  have hfront : CoversBefore (blank :: text' ++ rest) 0 text items :=
    h.append_blank hblank (text' ++ rest)
  have hback := h'.shift (text.size + 1)
  rw [Nat.zero_add, h.size_eq_length] at hback
  rw [h.size_eq_length]
  apply append hfront
  rw [Nat.zero_add]
  exact .blank hblank hback

end CoversBefore

namespace Lexeme

variable {first second : Text}

theorem size_join (hblank : isBlank blank = true) (first second : Text) :
    (first ++ blank :: second).size = second.size + (first.size + 1) := by
  rw [Text.size_append, Text.size_cons, utf8Size_of_isBlank hblank]
  omega

/-- Scanning finds in two texts with a blank between them what it finds in each. It fails as for the
first text if it fails there, and otherwise as for the second one, at the new place. -/
theorem scan_blank (hblank : blank = ' ' ∨ blank = '\t')
    (hsize : (first ++ blank :: second).size ≤ 4096) :
    (∀ items items', scan first = .ok items → scan second = .ok items' → ∃ body,
      items = body ++ [⟨.endOfText, .one first.size⟩] ∧
      scan (first ++ blank :: second) = .ok (body ++ items'.map (shift (first.size + 1)))) ∧
    (∀ e, scan first = .error e → scan (first ++ blank :: second) = .error e) ∧
    (∀ items e, scan first = .ok items → scan second = .error e → ∃ c position,
      e = .unexpectedCharacter c (.one position) ∧
      scan (first ++ blank :: second) =
        .error (.unexpectedCharacter c (.one (position + (first.size + 1))))) := by
  replace hblank : isBlank blank = true := by simpa [isBlank] using hblank
  have hsum := size_join hblank first second
  have hfirst : first.size ≤ maxSize := Nat.le_trans (by omega) hsize
  have hsecond : second.size ≤ maxSize := Nat.le_trans (by omega) hsize
  refine ⟨?_, ?_, ?_⟩
  · intro items items' h h'
    obtain ⟨body, rfl, hbody⟩ := exists_of_scan h
    obtain ⟨body', rfl, hbody'⟩ := exists_of_scan h'
    refine ⟨body, rfl, ?_⟩
    rw [(hbody.join hbody' hblank).scan hsize, hsum, List.map_append, List.append_assoc]
    rfl
  · intro e h
    obtain ⟨before, c, later, items, rfl, hbefore, hc, hlong, rfl⟩ :=
      (scan_eq_error_iff hfirst).mp h
    rw [List.append_assoc] at hsize ⊢
    exact (scan_eq_error_iff hsize).mpr ⟨before, c, _, items, rfl,
      hbefore.append_blank hblank second, hc, Token.longest?_append_blank hlong hblank second, rfl⟩
  · intro items e h h'
    obtain ⟨body, -, hbody⟩ := exists_of_scan h
    obtain ⟨before, c, later, items', rfl, hbefore, hc, hlong, rfl⟩ :=
      (scan_eq_error_iff hsecond).mp h'
    refine ⟨c, before.size, rfl, ?_⟩
    rw [← size_join hblank]
    rw [← List.cons_append, ← List.append_assoc] at hsize ⊢
    exact (scan_eq_error_iff hsize).mpr ⟨_, c, later, _, rfl, hbody.join hbefore hblank, hc, hlong,
      rfl⟩

theorem scan_blank_letter : Text.size (['0'] ++ ' ' :: ['x', '1']) ≤ 4096 ∧
    scan ['0'] = .ok [⟨.literal .decimal, ⟨0, 0⟩⟩, ⟨.endOfText, ⟨1, 1⟩⟩] ∧
    scan ['x', '1'] = .error (.unexpectedCharacter 'x' ⟨0, 0⟩) ∧
    scan (['0'] ++ ' ' :: ['x', '1']) = .error (.unexpectedCharacter 'x' ⟨2, 2⟩) := by
  have hsize : Text.size (['0'] ++ ' ' :: ['x', '1']) ≤ 4096 := by decide
  have hfirst : scan ['0'] = .ok [⟨.literal .decimal, ⟨0, 0⟩⟩, ⟨.endOfText, ⟨1, 1⟩⟩] := rfl
  have hsecond : scan ['x', '1'] = .error (.unexpectedCharacter 'x' ⟨0, 0⟩) := rfl
  obtain ⟨c, position, heq, hscan⟩ := (scan_blank (Or.inl rfl) hsize).2.2 _ _ hfirst hsecond
  injection heq with hc hspan
  injection hspan with hposition
  rw [← hc, ← hposition] at hscan
  exact ⟨hsize, hfirst, hsecond, hscan⟩

end Lexeme

end WordCalc
