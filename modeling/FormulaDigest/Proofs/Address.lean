import FormulaDigest.Position
import FormulaDigest.Proofs.Runs

/-!
# Printed addresses

Column letters are a bijective numeration, so an address determines its position: no two positions
print alike, and reading a printed address within the limits gives its position back.
-/
namespace FormulaDigest

namespace Column

theorem isUpper_letter {digit : Nat} (h : digit < 26) : (letter digit).isUpper = true := by
  have all : ∀ d : Fin 26, (letter d).isUpper = true := by decide
  exact all ⟨digit, h⟩

theorem letterValue_letter {digit : Nat} (h : digit < 26) :
    letterValue (letter digit) = digit + 1 := by
  have all : ∀ d : Fin 26, letterValue (letter d) = d + 1 := by decide
  exact all ⟨digit, h⟩

theorem isUpper_of_mem_letters {column : Nat} {c : Char} (h : c ∈ letters column) :
    c.isUpper = true := by
  induction column using Nat.strongRecOn with
  | ind column ih =>
    rw [letters] at h
    rcases List.mem_append.mp h with h | h
    · split at h
      · simp at h
      · exact ih _ (by omega) h
    · rw [List.mem_singleton.mp h]
      exact isUpper_letter (Nat.mod_lt _ (by omega))

theorem all_isAlpha {cs : List Char} (h : ∀ c ∈ cs, c.isUpper = true) :
    cs.all Char.isAlpha = true := by
  rw [List.all_eq_true]
  intro c hc
  simp [Char.isAlpha, h c hc]

/-- The letters of a column denote its one-based number. -/
theorem value_letters (column : Nat) : value (letters column) = column + 1 := by
  induction column using Nat.strongRecOn with
  | ind column ih =>
    rw [letters, value_concat, letterValue_letter (Nat.mod_lt _ (by omega))]
    split
    · simp only [value, List.foldl_nil]
      omega
    · rw [ih _ (by omega)]
      omega

theorem letters_injective : Function.Injective letters := by
  intro a b h
  have hv := congrArg value h
  simpa only [value_letters, Nat.add_right_cancel_iff] using hv

theorem letterValue_add {c : Char} (h : c.isUpper = true) : letterValue c + 64 = c.toNat := by
  have hn := isUpper_iff.mp h
  have hu : c.toUpper = c := by
    apply Char.toUpper_eq_of_not_isLower
    rw [isLower_iff]
    omega
  have hA : 'A'.toNat = 65 := rfl
  rw [letterValue, hu, hA]
  omega

theorem letterValue_le {c : Char} (h : c.isUpper = true) : letterValue c ≤ 26 := by
  have := letterValue_add h
  have := isUpper_iff.mp h
  omega

/-- A run of `n` letters denotes at most `26 + 26 ^ 2 + ⋯ + 26 ^ n`. -/
theorem value_le {cs : List Char} (h : ∀ c ∈ cs, c.isUpper = true) :
    25 * value cs + 26 ≤ 26 ^ (cs.length + 1) := by
  induction cs using List.reverseRecOn with
  | nil => simp [value]
  | append_singleton cs c ih =>
    have hv := ih fun d hd => h d (by simp [hd])
    have hc := letterValue_le (h c (by simp))
    rw [value_concat, List.length_append, List.length_singleton, Nat.pow_succ]
    omega

/-- Up to three letters name one of the first `26 + 26 ^ 2 + 26 ^ 3` columns. -/
theorem ofLetters?_of_length_le {cs : List Char} (h : ∀ c ∈ cs, c.isUpper = true) (hne : cs ≠ [])
    (hlen : cs.length ≤ 3) : ∃ column ≤ 18277, ofLetters? cs = some column := by
  have hv : value cs ≤ 18278 := by
    have hp : 26 ^ (cs.length + 1) ≤ 26 ^ 4 := Nat.pow_le_pow_right (by omega) (by omega)
    have := value_le h
    omega
  have hl : value cs ≤ limit := Nat.le_trans hv (by decide)
  exact ⟨value cs - 1, by omega, by simp [ofLetters?, hne, all_isAlpha h, hl]⟩

theorem ofLetters?_letters {column : Nat} (h : column < limit) :
    ofLetters? (letters column) = some column := by
  have ha : (letters column).all Char.isAlpha = true := all_isAlpha fun _ => isUpper_of_mem_letters
  simp [ofLetters?, letters_ne_nil, ha, value_letters, Nat.succ_le_of_lt h]

end Column

namespace Position

theorem toList_a1 (p : Position) :
    p.a1.toList = Column.letters p.column ++ Nat.toDigits 10 (p.row + 1) := by
  simp [a1, Column.name, Nat.toList_repr]

theorem isDigit_of_mem_rowDigits {n : Nat} {c : Char} (h : c ∈ Nat.toDigits 10 n) :
    c.isDigit = true :=
  Nat.isDigit_of_mem_toDigits (by omega) (by omega) h

theorem not_isDigit_of_mem_letters {column : Nat} {c : Char} (h : c ∈ Column.letters column) :
    (!c.isDigit) = true := by
  simp [isDigit_eq_false_of_isUpper (Column.isUpper_of_mem_letters h)]

theorem head?_rowDigits {n : Nat} : ∀ c ∈ (Nat.toDigits 10 n).head?, (!c.isDigit) = false := by
  intro c h
  simp [isDigit_of_mem_rowDigits (List.mem_of_mem_head? h)]

/-- An address is cut at its first digit. -/
theorem takeWhile_a1 (p : Position) :
    p.a1.toList.takeWhile (!·.isDigit) = Column.letters p.column := by
  rw [toList_a1]
  exact takeWhile_run (fun c => not_isDigit_of_mem_letters) head?_rowDigits

theorem dropWhile_a1 (p : Position) :
    p.a1.toList.dropWhile (!·.isDigit) = Nat.toDigits 10 (p.row + 1) := by
  rw [toList_a1]
  exact dropWhile_run (fun c => not_isDigit_of_mem_letters) head?_rowDigits

theorem a1_injective : Function.Injective a1 := by
  intro p q h
  have hl : Column.letters p.column = Column.letters q.column := by
    rw [← takeWhile_a1, ← takeWhile_a1, h]
  have hd : Nat.toDigits 10 (p.row + 1) = Nat.toDigits 10 (q.row + 1) := by
    rw [← dropWhile_a1, ← dropWhile_a1, h]
  have hr := congrArg (Nat.ofDigitChars 10 · 0) hd
  simp only [Nat.ofDigitChars_ten_toDigits, Nat.add_right_cancel_iff] at hr
  cases p; cases q
  simp only [Position.mk.injEq]
  exact ⟨hr, Column.letters_injective hl⟩

theorem ofChars?_a1 {p : Position} (hr : p.row < Column.limit) (hc : p.column < Column.limit) :
    ofChars? p.a1.toList = some p := by
  have hd : (Nat.toDigits 10 (p.row + 1)).all Char.isDigit = true :=
    List.all_eq_true.mpr fun c => isDigit_of_mem_rowDigits
  simp only [ofChars?, takeWhile_a1, dropWhile_a1, Nat.ofDigitChars_ten_toDigits, hd,
    Column.ofLetters?_letters hc, true_and]
  rw [if_pos (by omega)]
  simp

/-- Every character of an address is visible and none is an absolute marker. -/
theorem visible_of_mem_a1 {p : Position} {c : Char} (h : c ∈ p.a1.toList) :
    Blank.isBlank c = false ∧ c ≠ '$' := by
  rw [toList_a1, List.mem_append] at h
  rcases h with h | h
  · have hu := Column.isUpper_of_mem_letters h
    have hn := isUpper_iff.mp hu
    exact ⟨isBlank_eq_false (by omega) (by omega), ne_dollar_of_isUpper hu⟩
  · have hd := isDigit_of_mem_rowDigits h
    have hn := isDigit_iff.mp hd
    exact ⟨isBlank_eq_false (by omega) (by omega), ne_dollar_of_isDigit hd⟩

/-- Reading a printed address gives the position back. -/
theorem parse_a1 {p : Position} (hr : p.row < Column.limit) (hc : p.column < Column.limit) :
    parse p.a1 = .ok p := by
  have ht : Blank.trim p.a1.toList = p.a1.toList := by
    apply Blank.trim_eq_self
    · exact fun c h => (visible_of_mem_a1 (List.mem_of_mem_head? h)).1
    · exact fun c h => (visible_of_mem_a1 (List.mem_of_mem_getLast? h)).1
  have hf : p.a1.toList.filter (· ≠ '$') = p.a1.toList := by
    rw [List.filter_eq_self]
    intro c h
    simpa using (visible_of_mem_a1 h).2
  rw [parse, ht, hf, ofChars?_a1 hr hc]

end Position

end FormulaDigest
