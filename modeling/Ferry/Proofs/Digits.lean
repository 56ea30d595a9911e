import Mathlib.Algebra.Group.Nat.Defs
import Ferry.Text

/-!
# Decimal digits

What the digits of a number are, filled up with zeros or not, and the number that
they write again.
-/
namespace Ferry

theorem ne_of_isDigit {c d : Char} (hc : c.isDigit = true) (hd : d.isDigit = false) : c ≠ d := by
  rintro rfl
  rw [hc] at hd
  cases hd

theorem isDigit_of_mem_zeros_append {count n : Nat} {c : Char}
    (hc : c ∈ List.replicate count '0' ++ Nat.toDigits 10 n) : c.isDigit = true := by
  rcases List.mem_append.mp hc with hc | hc
  · rw [List.eq_of_mem_replicate hc]
    rfl
  · exact Nat.isDigit_of_mem_toDigits (by omega) (by omega) hc

theorem isDigit_of_mem_padded {count n : Nat} {c : Char} (hc : c ∈ padded count n) :
    c.isDigit = true := isDigit_of_mem_zeros_append hc

@[simp]
theorem ofDigitChars_padded (count n : Nat) : Nat.ofDigitChars 10 (padded count n) 0 = n := by
  simp [padded, Nat.ofDigitChars_append, Nat.ofDigitChars_replicate_zero,
    Nat.ofDigitChars_ten_toDigits]

theorem length_padded {count n : Nat} (hcount : 0 < count) (hn : n < 10 ^ count) :
    (padded count n).length = count := by
  have hle := (Nat.length_toDigits_le_iff (b := 10) (n := n) (by omega) hcount).mpr hn
  rw [padded, List.length_append, List.length_replicate]
  omega

theorem padded_ne_nil (count n : Nat) : padded count n ≠ [] := by
  intro h
  exact Nat.toDigits_ne_nil (List.append_eq_nil_iff.mp h).2

theorem takeWhile_isDigit_append {ds rest : List Char} (hds : ∀ c ∈ ds, c.isDigit = true)
    (hrest : ∀ c ∈ rest.head?, c.isDigit = false) :
    (ds ++ rest).takeWhile Char.isDigit = ds := by
  rw [List.takeWhile_append_of_pos hds]
  cases rest with
  | nil => simp
  | cons c rest => simp [hrest c (by simp)]

end Ferry
