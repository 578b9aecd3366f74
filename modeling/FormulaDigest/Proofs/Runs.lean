import Mathlib
import FormulaDigest.Blank

/-!
# Runs of characters

The classes of characters that references and addresses are made of, and the maximal runs of a
class at the beginning of a text.
-/
namespace FormulaDigest

theorem isUpper_iff {c : Char} : c.isUpper = true ↔ 65 ≤ c.toNat ∧ c.toNat ≤ 90 := by
  simp [Char.isUpper, UInt32.le_iff_toNat_le, ← Char.toNat_val]

theorem isDigit_iff {c : Char} : c.isDigit = true ↔ 48 ≤ c.toNat ∧ c.toNat ≤ 57 := by
  simp [Char.isDigit, UInt32.le_iff_toNat_le, ← Char.toNat_val]

theorem isDigit_eq_false_of_isUpper {c : Char} (h : c.isUpper = true) : c.isDigit = false := by
  rw [isUpper_iff] at h
  rw [← Bool.not_eq_true, isDigit_iff]
  omega

theorem isLower_iff {c : Char} : c.isLower = true ↔ 97 ≤ c.toNat ∧ c.toNat ≤ 122 := by
  simp [Char.isLower, UInt32.le_iff_toNat_le, ← Char.toNat_val]

theorem isDigit_eq_false_of_isAlpha {c : Char} (h : c.isAlpha = true) : c.isDigit = false := by
  rw [Char.isAlpha, Bool.or_eq_true, isUpper_iff, isLower_iff] at h
  rw [← Bool.not_eq_true, isDigit_iff]
  omega

theorem isUpper_eq_false_of_isDigit {c : Char} (h : c.isDigit = true) : c.isUpper = false := by
  rw [isDigit_iff] at h
  rw [← Bool.not_eq_true, isUpper_iff]
  omega

theorem ne_dollar_of_isUpper {c : Char} (h : c.isUpper = true) : c ≠ '$' := by
  rintro rfl
  revert h
  decide

theorem ne_dollar_of_isDigit {c : Char} (h : c.isDigit = true) : c ≠ '$' := by
  rintro rfl
  revert h
  decide

/-- Above the blank `0x20` and below `0x85` there is no white space. -/
theorem isBlank_eq_false {c : Char} (h : 0x20 < c.toNat) (h' : c.toNat < 0x85) :
    Blank.isBlank c = false := by
  simp only [Blank.isBlank, Blank.runs, List.any_cons, List.any_nil, Bool.or_eq_false_iff,
    Bool.and_eq_false_iff, decide_eq_false_iff_not, and_true]
  omega

section
variable {α : Type} {p : α → Bool} {run rest : List α}

/-- A run that ends where the text goes on with another class is the maximal one. -/
theorem takeWhile_run (inside : ∀ a ∈ run, p a = true) (ended : ∀ a ∈ rest.head?, p a = false) :
    (run ++ rest).takeWhile p = run := by
  rw [List.takeWhile_append_of_pos inside]
  cases rest with
  | nil => simp
  | cons a rest => simp [ended a rfl]

theorem dropWhile_run (inside : ∀ a ∈ run, p a = true) (ended : ∀ a ∈ rest.head?, p a = false) :
    (run ++ rest).dropWhile p = rest := by
  rw [List.dropWhile_append_of_pos inside]
  cases rest with
  | nil => simp
  | cons a rest => simp [ended a rfl]

/-- What follows the maximal run does not start with the class of the run. -/
theorem head?_dropWhile_eq_false {cs : List α} : ∀ a ∈ (cs.dropWhile p).head?, p a = false := by
  intro a ha
  have h := List.head?_dropWhile_not p cs
  rw [Option.mem_def.mp ha] at h
  exact h

end

end FormulaDigest
