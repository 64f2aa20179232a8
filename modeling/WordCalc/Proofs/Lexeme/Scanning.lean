import WordCalc.Proofs.Except
import WordCalc.Proofs.Lexeme.Spelling

/-! # Scanning

Scanning covers a text by blanks and by spellings of tokens, each as long as it can be, and
fails where neither stands.
-/

namespace WordCalc

/-- The lexemes cover a text that starts at the position, up to the blanks between them. -/
inductive Covers : Nat → Text → List Lexeme → Prop where
  | nil (position : Nat) : Covers position [] [⟨.endOfText, .one position⟩]
  | blank {position : Nat} {c : Char} {text : Text} {items : List Lexeme} :
      Lexeme.isBlank c = true → Covers (position + 1) text items → Covers position (c :: text) items
  | lexeme {position : Nat} {token : Token} {raw rest : Text} {items : List Lexeme} :
      token.IsSpelling raw → token.Ends raw rest → Covers (position + raw.length) rest items →
      Covers position (raw ++ rest)
        (⟨token, ⟨position, position + (raw.length - 1)⟩⟩ :: items)

namespace Lexeme

variable {skip position : Nat} {token : Token} {raw rest text : Text} {items : List Lexeme}

section Walk

variable {α : Type} (atEnd : Nat → α) (stuck : Nat → Char → α) (push : Lexeme → α → α)

/-- The course of a scan: what it comes to at the end of the text, at a character that starts
nothing, and with a lexeme in front of the rest. -/
def walk : (skip position : Nat) → Text → α
  | _, position, [] => atEnd position
  | skip + 1, position, _ :: text => walk skip (position + 1) text
  | 0, position, c :: text =>
    if isBlank c then walk 0 (position + 1) text
    else
      match Token.longest? (c :: text) with
      | none => stuck position c
      | some (token, length) =>
        push ⟨token, ⟨position, position + (length - 1)⟩⟩ (walk (length - 1) (position + 1) text)

theorem walk_skip (h : skip ≤ text.length) : walk atEnd stuck push skip position text =
    walk atEnd stuck push 0 (position + skip) (text.drop skip) := by
  induction skip generalizing position text with
  | zero => rfl
  | succ skip ih =>
    cases text with
    | nil => simp at h
    | cons c text =>
      rw [walk, ih (by simpa using h), List.drop_succ_cons, Nat.add_assoc, Nat.add_comm 1]

theorem walk_blank {c : Char} (h : isBlank c = true) :
    walk atEnd stuck push 0 position (c :: text) =
      walk atEnd stuck push 0 (position + 1) text := by
  simp [walk, h]

theorem walk_append (hraw : token.IsSpelling raw) (hend : token.Ends raw rest) :
    walk atEnd stuck push 0 position (raw ++ rest) =
      push ⟨token, ⟨position, position + (raw.length - 1)⟩⟩
        (walk atEnd stuck push 0 (position + raw.length) rest) := by
  have hlong := Token.longest?_append hraw hend
  obtain ⟨hne, hshape⟩ := hraw.shape
  obtain ⟨c, later, rfl⟩ := List.exists_cons_of_ne_nil hne
  have hblank := (hshape c (by simp)).2
  have hskip : walk atEnd stuck push later.length (position + 1) (later ++ rest) =
      walk atEnd stuck push 0 (position + (later.length + 1)) rest := by
    rw [walk_skip _ _ _ (by simp), List.drop_left, Nat.add_assoc, Nat.add_comm 1]
  rw [List.cons_append] at hlong ⊢
  simp [walk, hblank, hlong, hskip]

end Walk

/-- Scanning is the walk that collects the lexemes, or gives them up for an error. -/
theorem scanFrom_eq_walk (skip position : Nat) (text : Text) : scanFrom skip position text =
    walk (fun position => .ok [⟨.endOfText, .one position⟩])
      (fun position c => .error (.unexpectedCharacter c (.one position)))
      (fun item items => items.map (item :: ·)) skip position text := by
  induction text generalizing skip position with
  | nil => cases skip <;> rfl
  | cons c text ih =>
    cases skip with
    | succ skip => exact ih skip (position + 1)
    | zero =>
      rw [scanFrom, walk]
      cases Token.longest? (c :: text) <;> simp [ih]

theorem scanFrom_blank {c : Char} (h : isBlank c = true) :
    scanFrom 0 position (c :: text) = scanFrom 0 (position + 1) text := by
  rw [scanFrom_eq_walk, walk_blank _ _ _ h, scanFrom_eq_walk]

theorem scanFrom_append (hraw : token.IsSpelling raw) (hend : token.Ends raw rest) :
    scanFrom 0 position (raw ++ rest) = (scanFrom 0 (position + raw.length) rest).map
      (⟨token, ⟨position, position + (raw.length - 1)⟩⟩ :: ·) := by
  rw [scanFrom_eq_walk, walk_append _ _ _ hraw hend, scanFrom_eq_walk]

theorem covers_of_scanFrom {position : Nat} {text : Text} {items : List Lexeme}
    (h : scanFrom 0 position text = .ok items) : Covers position text items := by
  match text with
  | [] =>
    obtain rfl : [⟨.endOfText, .one position⟩] = items := by simpa [scanFrom] using h
    exact .nil position
  | c :: text =>
    by_cases hblank : isBlank c = true
    · rw [scanFrom_blank hblank] at h
      exact .blank hblank (covers_of_scanFrom h)
    · cases hlong : Token.longest? (c :: text) with
      | none => simp [scanFrom, hblank, hlong] at h
      | some found =>
        obtain ⟨raw, rest, heq, -, hraw, hend⟩ := Token.exists_of_longest? hlong
        have hshorter : rest.length < (c :: text).length := by
          have hpos := List.length_pos_iff.mpr hraw.shape.1
          rw [heq, List.length_append]
          omega
        rw [heq, scanFrom_append hraw hend] at h
        cases hrest : scanFrom 0 (position + raw.length) rest with
        | error => simp [hrest, Except.map] at h
        | ok later =>
          obtain rfl := Except.ok.inj (hrest ▸ h)
          rw [heq]
          exact .lexeme hraw hend (covers_of_scanFrom hrest)
termination_by text.length
decreasing_by
  · exact Nat.lt_succ_self _
  · exact hshorter

theorem scanFrom_of_covers (h : Covers position text items) :
    scanFrom 0 position text = .ok items := by
  induction h with
  | nil => rfl
  | blank hblank _ ih => rw [scanFrom_blank hblank, ih]
  | lexeme hraw hend _ ih => rw [scanFrom_append hraw hend, ih]; rfl

theorem scan_of_le {source : Text} (h : source.size ≤ maxSize) :
    scan source = scanFrom 0 0 source :=
  if_neg (Nat.not_lt_of_le h)

theorem scan_eq_ok_iff {source : Text} :
    scan source = .ok items ↔ source.size ≤ maxSize ∧ Covers 0 source items := by
  unfold scan
  split
  · rename_i hlong
    simp only [reduceCtorEq, false_iff, not_and]
    omega
  · rename_i hshort
    exact ⟨fun h => ⟨by omega, covers_of_scanFrom h⟩, fun h => scanFrom_of_covers h.2⟩

end Lexeme

end WordCalc
