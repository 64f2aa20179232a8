import WordCalc.Text.Bytes

/-! # Bytes of a text

The bytes of the UTF-8 form, one after the other. A character below 128 is its own byte, and
every byte of another character is 128 or more, so a test that only such small characters pass
can be made on bytes.
-/

namespace WordCalc.Text

variable {before text : Text} {c : Char} {p : Char → Bool}

def bytes (text : Text) : List UInt8 := text.flatMap String.utf8EncodeChar

@[simp] theorem bytes_nil : bytes [] = [] := rfl

@[simp] theorem bytes_cons : bytes (c :: text) = String.utf8EncodeChar c ++ bytes text := rfl

@[simp] theorem bytes_append : bytes (before ++ text) = bytes before ++ bytes text :=
  List.flatMap_append

@[simp] theorem length_bytes (text : Text) : text.bytes.length = text.size := by
  induction text with
  | nil => rfl
  | cons c text ih =>
    rw [bytes_cons, List.length_append, String.length_utf8EncodeChar, ih, size_cons]

theorem getElem?_bytes_append (before text : Text) :
    (bytes (before ++ text))[before.size]? = text.bytes.head? := by
  rw [bytes_append, ← length_bytes, List.getElem?_append_right (Nat.le_refl _), Nat.sub_self,
    List.head?_eq_getElem?]

theorem append_inj_of_size {before' text' : Text} (h : before ++ text = before' ++ text')
    (hsize : before.size = before'.size) : before = before' ∧ text = text' := by
  have htake : some before = some before' := by
    rw [← takeBytes?_size_append before text, h, hsize, takeBytes?_size_append]
  obtain rfl := Option.some.inj htake
  exact ⟨rfl, List.append_cancel_left h⟩

theorem toNat_ofUInt8 (n : Nat) : (Char.ofUInt8 (.ofNat n)).toNat = n % 256 := UInt8.toNat_ofNat'

theorem exists_utf8EncodeChar (c : Char) : ∃ b later, String.utf8EncodeChar c = b :: later ∧
    (Char.ofUInt8 b = c ∨ 128 ≤ c.toNat ∧ 128 ≤ (Char.ofUInt8 b).toNat) := by
  unfold String.utf8EncodeChar
  by_cases hone : c.val.toNat ≤ 127
  · refine ⟨_, _, if_pos hone, Or.inl (Char.toNat_inj.mp ?_)⟩
    rw [toNat_ofUInt8]
    exact Nat.mod_eq_of_lt (by omega)
  · have hlarge : 128 ≤ c.toNat := Nat.lt_of_not_le hone
    rw [if_neg hone]
    split
    · exact ⟨_, _, rfl, Or.inr ⟨hlarge, by rw [toNat_ofUInt8]; omega⟩⟩
    · split
      · exact ⟨_, _, rfl, Or.inr ⟨hlarge, by rw [toNat_ofUInt8]; omega⟩⟩
      · exact ⟨_, _, rfl, Or.inr ⟨hlarge, by rw [toNat_ofUInt8]; omega⟩⟩

/-- A test that only small characters pass gives the same on a character and its first byte. -/
theorem head?_bytes (hp : ∀ c, p c = true → c.toNat < 128) (text : Text) :
    text.bytes.head?.map (fun b => p (.ofUInt8 b)) = text.head?.map p := by
  cases text with
  | nil => rfl
  | cons c text =>
    obtain ⟨b, later, heq, hb⟩ := exists_utf8EncodeChar c
    rw [bytes_cons, heq]
    change some (p (.ofUInt8 b)) = some (p c)
    rcases hb with rfl | ⟨hc, hb⟩
    · rfl
    · have hfails : ∀ c, 128 ≤ c.toNat → p c = false := by
        intro c hlarge
        cases h : p c with
        | false => rfl
        | true => exact absurd (hp c h) (Nat.not_lt_of_le hlarge)
      rw [hfails _ hb, hfails _ hc]

theorem forall_head?_bytes (hp : ∀ c, p c = true → c.toNat < 128) (text : Text) (answer : Bool) :
    (∀ b ∈ text.bytes.head?, p (.ofUInt8 b) = answer) ↔ ∀ c ∈ text.head?, p c = answer := by
  have hanswers : (∀ a ∈ text.bytes.head?.map fun b => p (.ofUInt8 b), a = answer) ↔
      ∀ a ∈ text.head?.map p, a = answer := by
    rw [head?_bytes hp]
  simpa using hanswers

end WordCalc.Text
