/-! # Tables of code points

A property of characters is kept as the list of the closed ranges of code
points that have it. In an ascending list, looking a code point up can stop at
the first range behind it, and finds exactly what lies in some range.
-/

namespace WordCalc

/-- First and last code point of each range. -/
abbrev Ranges := List (Nat × Nat)

namespace Ranges

def isAscending : Ranges → Bool
  | [] => true
  | [(first, last)] => first ≤ last
  | (first, last) :: (next, stop) :: ranges =>
    first ≤ last && last < next && isAscending ((next, stop) :: ranges)

def contains : Ranges → Nat → Bool
  | [], _ => false
  | (first, last) :: ranges, n =>
    if n < first then false else n ≤ last || contains ranges n

theorem contains_eq_false_of_lt {ranges : Ranges} {n : Nat} (h : ∀ r ∈ ranges, n < r.1) :
    contains ranges n = false := by
  cases ranges with
  | nil => rfl
  | cons r ranges => simp [contains, h r (by simp)]

theorem lt_of_isAscending {first last : Nat} {ranges : Ranges}
    (h : isAscending ((first, last) :: ranges) = true) : ∀ r ∈ ranges, last < r.1 := by
  induction ranges generalizing first last with
  | nil => simp
  | cons r ranges ih =>
    obtain ⟨next, stop⟩ := r
    simp only [isAscending, Bool.and_eq_true, decide_eq_true_eq] at h
    obtain ⟨⟨-, hNext⟩, hRest⟩ := h
    have hStop : next ≤ stop := by
      cases ranges with
      | nil => simpa [isAscending] using hRest
      | cons =>
        simp only [isAscending, Bool.and_eq_true, decide_eq_true_eq] at hRest
        exact hRest.1.1
    intro r hr
    rcases List.mem_cons.mp hr with rfl | hr
    · exact hNext
    · have := ih hRest r hr
      omega

theorem isAscending_tail {r : Nat × Nat} {ranges : Ranges}
    (h : isAscending (r :: ranges) = true) : ranges.isAscending = true := by
  cases ranges with
  | nil => rfl
  | cons =>
    simp only [isAscending, Bool.and_eq_true] at h
    exact h.2

theorem contains_iff {ranges : Ranges} (h : ranges.isAscending = true) (n : Nat) :
    contains ranges n = true ↔ ∃ r ∈ ranges, r.1 ≤ n ∧ n ≤ r.2 := by
  induction ranges with
  | nil => simp [contains]
  | cons r ranges ih =>
    obtain ⟨first, last⟩ := r
    have hLater := lt_of_isAscending h
    simp only [List.mem_cons, exists_eq_or_imp, ← ih (isAscending_tail h)]
    by_cases hn : n < first
    · have hFirst : first ≤ last := by
        cases ranges with
        | nil => simpa [isAscending] using h
        | cons =>
          simp only [isAscending, Bool.and_eq_true, decide_eq_true_eq] at h
          exact h.1.1
      have hNone : contains ranges n = false :=
        contains_eq_false_of_lt fun r hr => by have := hLater r hr; omega
      simp only [contains, if_pos hn, hNone, Bool.false_eq_true, or_false, false_iff]
      omega
    · have hFirst : first ≤ n := by omega
      simp only [contains, if_neg hn, Bool.or_eq_true, decide_eq_true_eq, hFirst, true_and]

end Ranges

end WordCalc
