/-! # Text measured in bytes

A text is a list of characters. Positions in it count the bytes of its UTF-8
form, so some positions fall inside a character; taking or dropping that many
bytes then has no result.
-/

namespace WordCalc

abbrev Text := List Char

namespace Text

/-- The length of the text in bytes. -/
def size (t : Text) : Nat := t.foldr (fun c n => c.utf8Size + n) 0

@[simp] theorem size_nil : size [] = 0 := rfl

@[simp] theorem size_cons (c : Char) (t : Text) : size (c :: t) = c.utf8Size + size t := rfl

@[simp] theorem size_append (t u : Text) : size (t ++ u) = size t + size u := by
  induction t with
  | nil => exact (Nat.zero_add _).symm
  | cons c t ih => rw [List.cons_append, size_cons, size_cons, ih, Nat.add_assoc]

theorem size_concat (t : Text) {c : Char} (h : c.utf8Size = 1) : size (t ++ [c]) = size t + 1 := by
  rw [size_append, size_cons, h]
  rfl

/-- The characters that fill the first `n` bytes exactly. -/
def takeBytes? : Nat → Text → Option Text
  | 0, _ => some []
  | _ + 1, [] => none
  | n + 1, c :: t =>
    if c.utf8Size ≤ n + 1 then (takeBytes? (n + 1 - c.utf8Size) t).map (c :: ·) else none

def dropBytes? : Nat → Text → Option Text
  | 0, t => some t
  | _ + 1, [] => none
  | n + 1, c :: t => if c.utf8Size ≤ n + 1 then dropBytes? (n + 1 - c.utf8Size) t else none

@[simp] theorem takeBytes?_zero (t : Text) : takeBytes? 0 t = some [] := by cases t <;> rfl

@[simp] theorem dropBytes?_zero (t : Text) : dropBytes? 0 t = some t := by cases t <;> rfl

@[simp] theorem takeBytes?_size_append (t u : Text) : takeBytes? (size t) (t ++ u) = some t := by
  induction t with
  | nil => exact takeBytes?_zero u
  | cons c t ih =>
    obtain ⟨n, hn⟩ : ∃ n, c.utf8Size + size t = n + 1 :=
      ⟨c.utf8Size + size t - 1, by have := c.utf8Size_pos; omega⟩
    rw [size_cons, hn, List.cons_append, takeBytes?, ← hn, if_pos (by omega),
      Nat.add_sub_cancel_left, ih]
    rfl

@[simp] theorem dropBytes?_size_append (t u : Text) : dropBytes? (size t) (t ++ u) = some u := by
  induction t with
  | nil => exact dropBytes?_zero u
  | cons c t ih =>
    obtain ⟨n, hn⟩ : ∃ n, c.utf8Size + size t = n + 1 :=
      ⟨c.utf8Size + size t - 1, by have := c.utf8Size_pos; omega⟩
    rw [size_cons, hn, List.cons_append, dropBytes?, ← hn, if_pos (by omega),
      Nat.add_sub_cancel_left, ih]

theorem takeBytes?_eq_some {n : Nat} {t u : Text} (h : takeBytes? n t = some u) :
    size u = n ∧ ∃ v, t = u ++ v := by
  induction t generalizing n u with
  | nil => cases n <;> simp_all [takeBytes?]
  | cons c t ih =>
    cases n with
    | zero => simp_all [takeBytes?]
    | succ n =>
      simp only [takeBytes?] at h
      split at h
      · obtain ⟨w, hw, rfl⟩ := Option.map_eq_some_iff.mp h
        obtain ⟨hs, v, rfl⟩ := ih hw
        exact ⟨by rw [size_cons, hs]; omega, v, rfl⟩
      · cases h

theorem dropBytes?_eq_some {n : Nat} {t v : Text} (h : dropBytes? n t = some v) :
    ∃ u, size u = n ∧ t = u ++ v := by
  induction t generalizing n with
  | nil => cases n <;> simp_all [dropBytes?]
  | cons c t ih =>
    cases n with
    | zero => exact ⟨[], rfl, by simpa [dropBytes?] using h⟩
    | succ n =>
      simp only [dropBytes?] at h
      split at h
      · obtain ⟨u, hs, rfl⟩ := ih h
        exact ⟨c :: u, by rw [size_cons, hs]; omega, rfl⟩
      · cases h

end Text

end WordCalc
