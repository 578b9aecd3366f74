import FormulaDigest.Proofs.Address

/-!
# The grammar of addresses

An address is a run of letters, the column in bijective base 26, and a run of digits, the row in
base ten. White space may stand around it and absolute markers anywhere in it, and both numbers
count from one and fit 32 bits. Reading accepts exactly these texts, and what is read can be
printed and read again.
-/
namespace FormulaDigest

namespace Blank

/-- `middle` is a text without the white space at its ends. -/
structure Trimmed (cs middle : List Char) : Prop where
  around : ∃ before after, before ++ middle ++ after = cs ∧
    (∀ c ∈ before, isBlank c = true) ∧ ∀ c ∈ after, isBlank c = true
  first : ∀ c ∈ middle.head?, isBlank c = false
  last : ∀ c ∈ middle.getLast?, isBlank c = false

variable {cs middle : List Char}

theorem dropWhile_isBlank_eq_nil (h : ∀ c ∈ cs, isBlank c = true) : cs.dropWhile isBlank = [] := by
  rw [List.dropWhile_eq_nil_iff]
  exact h

theorem Trimmed.trim_eq (h : Trimmed cs middle) : trim cs = middle := by
  obtain ⟨⟨before, after, rfl, hb, ha⟩, first, last⟩ := h
  have har : ∀ c ∈ after.reverse, isBlank c = true := by simpa using ha
  rw [trim, List.append_assoc, List.dropWhile_append_of_pos hb]
  cases middle with
  | nil => simp [dropWhile_isBlank_eq_nil ha]
  | cons c middle =>
    have hc : isBlank c = false := first c rfl
    rw [List.cons_append, List.dropWhile_cons_of_neg (by simp [hc]), ← List.cons_append,
      List.reverse_append, dropWhile_run har (by rwa [List.head?_reverse]), List.reverse_reverse]

theorem trimmed_trim (cs : List Char) : Trimmed cs (trim cs) := by
  let tail := cs.dropWhile isBlank
  have hfront : cs.takeWhile isBlank ++ tail = cs := List.takeWhile_append_dropWhile
  have hback : tail.reverse.takeWhile isBlank ++ tail.reverse.dropWhile isBlank = tail.reverse :=
    List.takeWhile_append_dropWhile
  have htail : trim cs ++ (tail.reverse.takeWhile isBlank).reverse = tail := by
    rw [trim, ← List.reverse_append, hback, List.reverse_reverse]
  refine ⟨⟨cs.takeWhile isBlank, (tail.reverse.takeWhile isBlank).reverse, ?_, ?_, ?_⟩, ?_, ?_⟩
  · rw [List.append_assoc, htail, hfront]
  · exact fun c hc => List.mem_takeWhile_imp hc
  · intro c hc
    exact List.mem_takeWhile_imp (List.mem_reverse.mp hc)
  · intro c hc
    -- The first character that is kept is the first of the tail.
    have hne : trim cs ≠ [] := by rintro he; simp [he] at hc
    rw [← List.head?_append_of_ne_nil _ hne, htail] at hc
    exact head?_dropWhile_eq_false c hc
  · intro c hc
    rw [trim, List.getLast?_reverse] at hc
    exact head?_dropWhile_eq_false c hc

theorem trim_eq_iff : trim cs = middle ↔ Trimmed cs middle := by
  constructor
  · rintro rfl
    exact trimmed_trim cs
  · exact Trimmed.trim_eq

end Blank

/-- Reading digits from the left, the highest first, gives their positional value. -/
theorem foldl_eq_ofDigits (base : Nat) (digit : Char → Nat) (cs : List Char) :
    cs.foldl (fun n c => base * n + digit c) 0 = Nat.ofDigits base (cs.reverse.map digit) := by
  induction cs using List.reverseRecOn with
  | nil => rfl
  | append_singleton cs c ih =>
    rw [List.foldl_concat, ih, List.reverse_concat, List.map_cons, Nat.ofDigits_cons, Nat.add_comm]

namespace Column

variable {cs : List Char} {column : Nat}

theorem limit_add_one : limit + 1 = 2 ^ 32 := by decide

theorem one_le_value (h : cs ≠ []) : 1 ≤ value cs := by
  obtain ⟨front, c, rfl⟩ := List.eq_nil_or_concat cs |>.resolve_left h
  rw [List.concat_eq_append, value_concat, letterValue]
  omega

/-- Letters are digits from one to 26, so a run of them is a number in bijective base 26. -/
theorem value_eq_ofDigits (cs : List Char) :
    value cs = Nat.ofDigits 26 (cs.reverse.map letterValue) :=
  foldl_eq_ofDigits 26 letterValue cs

theorem ofLetters?_eq_some_iff : ofLetters? cs = some column ↔
    cs ≠ [] ∧ (∀ c ∈ cs, c.isAlpha = true) ∧ value cs = column + 1 ∧ column < limit := by
  rw [ofLetters?, Option.ite_none_right_eq_some, List.all_eq_true, Option.some.injEq]
  constructor
  · rintro ⟨⟨hne, ha, hv⟩, rfl⟩
    have := one_le_value hne
    exact ⟨hne, ha, by omega, by omega⟩
  · rintro ⟨hne, ha, hv, hl⟩
    exact ⟨⟨hne, ha, by omega⟩, by omega⟩

end Column

namespace Position

/-- An address as it is written, without white space and absolute markers. -/
structure Spelling where
  letters : List Char
  digits : List Char
  letters_ne_nil : letters ≠ []
  isAlpha : ∀ c ∈ letters, c.isAlpha = true
  digits_ne_nil : digits ≠ []
  isDigit : ∀ c ∈ digits, c.isDigit = true

namespace Spelling

def text (s : Spelling) : List Char := s.letters ++ s.digits

/-- The column, counted from one, in bijective base 26 and in either case. -/
def column (s : Spelling) : Nat := Nat.ofDigits 26 (s.letters.reverse.map Column.letterValue)

/-- The row, counted from one, perhaps with leading zeros. -/
def row (s : Spelling) : Nat := Nat.ofDigits 10 (s.digits.reverse.map fun d => d.toNat - '0'.toNat)

/-- Both numbers fit 32 bits and count the row and the column of a position from one. -/
structure Names (s : Spelling) (p : Position) : Prop where
  column : s.column = p.column + 1
  column_lt : s.column < 2 ^ 32
  row : s.row = p.row + 1
  row_lt : s.row < 2 ^ 32

variable {p : Position}

theorem ofDigitChars_digits (s : Spelling) : Nat.ofDigitChars 10 s.digits 0 = s.row :=
  foldl_eq_ofDigits 10 (fun d => d.toNat - '0'.toNat) s.digits

theorem not_isDigit_of_mem_letters (s : Spelling) : ∀ c ∈ s.letters, (!c.isDigit) = true := by
  intro c hc
  simp [isDigit_eq_false_of_isAlpha (s.isAlpha c hc)]

theorem isDigit_of_mem_head? (s : Spelling) : ∀ c ∈ s.digits.head?, (!c.isDigit) = false := by
  intro c hc
  simp [s.isDigit c (List.mem_of_mem_head? hc)]

theorem takeWhile_text (s : Spelling) : s.text.takeWhile (!·.isDigit) = s.letters :=
  takeWhile_run s.not_isDigit_of_mem_letters s.isDigit_of_mem_head?

theorem dropWhile_text (s : Spelling) : s.text.dropWhile (!·.isDigit) = s.digits :=
  dropWhile_run s.not_isDigit_of_mem_letters s.isDigit_of_mem_head?

/-- A spelling is read as the position that it names. -/
theorem ofChars?_text {s : Spelling} (h : s.Names p) : ofChars? s.text = some p := by
  have hcol : Column.ofLetters? s.letters = some p.column := by
    have hv : Column.value s.letters = s.column := Column.value_eq_ofDigits s.letters
    have := h.column
    have := h.column_lt
    have := Column.limit_add_one
    exact Column.ofLetters?_eq_some_iff.mpr ⟨s.letters_ne_nil, s.isAlpha, by omega, by omega⟩
  have hrow : s.digits.all Char.isDigit = true ∧ 1 ≤ s.row ∧ s.row ≤ Column.limit := by
    have := h.row
    have := h.row_lt
    have := Column.limit_add_one
    exact ⟨List.all_eq_true.mpr s.isDigit, by omega, by omega⟩
  simp only [ofChars?, s.takeWhile_text, s.dropWhile_text, s.ofDigitChars_digits, hcol,
    Option.map_some, if_pos hrow]
  rw [h.row, Nat.add_sub_cancel]

/-- What is read as a position is a spelling that names it. -/
theorem exists_of_ofChars? {cs : List Char} (h : ofChars? cs = some p) :
    ∃ s : Spelling, s.text = cs ∧ s.Names p := by
  simp only [ofChars?, Option.ite_none_right_eq_some, Option.map_eq_some_iff] at h
  obtain ⟨⟨hd, hr, hr'⟩, column, hcol, rfl⟩ := h
  obtain ⟨hne, ha, hv, hc⟩ := Column.ofLetters?_eq_some_iff.mp hcol
  have hdne : cs.dropWhile (!·.isDigit) ≠ [] := by
    rintro he
    rw [he] at hr
    exact absurd hr (by decide)
  let s : Spelling := ⟨_, _, hne, ha, hdne, List.all_eq_true.mp hd⟩
  have hrow : Nat.ofDigitChars 10 (cs.dropWhile (!·.isDigit)) 0 = s.row := s.ofDigitChars_digits
  have hcolumn : Column.value (cs.takeWhile (!·.isDigit)) = s.column :=
    Column.value_eq_ofDigits _
  have hl := Column.limit_add_one
  refine ⟨s, List.takeWhile_append_dropWhile, ?_, ?_, ?_, ?_⟩
  · rw [← hcolumn, hv]
  · omega
  · simp only
    omega
  · omega

end Spelling

/-- A text is an address of a position: a spelling that names it is what remains without the white
space around it and without absolute markers. -/
def Denotes (text : String) (p : Position) : Prop :=
  ∃ (middle : List Char) (s : Spelling), Blank.Trimmed text.toList middle ∧
    middle.filter (· ≠ '$') = s.text ∧ s.Names p

variable {text : String} {p : Position}

theorem denotes_iff :
    Denotes text p ↔ ofChars? ((Blank.trim text.toList).filter (· ≠ '$')) = some p := by
  constructor
  · rintro ⟨middle, s, ht, hs, hn⟩
    rw [Blank.trim_eq_iff.mpr ht, hs, Spelling.ofChars?_text hn]
  · intro h
    obtain ⟨s, hs, hn⟩ := Spelling.exists_of_ofChars? h
    exact ⟨_, s, Blank.trim_eq_iff.mp rfl, hs.symm, hn⟩

theorem parse_eq_ok_iff : parse text = .ok p ↔ Denotes text p := by
  rw [denotes_iff, parse]
  split
  case h_1 q hq => rw [hq, Except.ok.injEq, Option.some.injEq]
  case h_2 hn => rw [hn]; simp

theorem parse_eq_error (h : ∀ p, ¬ Denotes text p) : parse text = .error ⟨text⟩ := by
  simp only [denotes_iff] at h
  rw [parse]
  split
  case h_1 q hq => exact absurd hq (h q)
  case h_2 => rfl

theorem Denotes.limits (h : Denotes text p) : p.row + 1 < 2 ^ 32 ∧ p.column + 1 < 2 ^ 32 := by
  obtain ⟨middle, s, -, -, hn⟩ := h
  exact ⟨hn.row ▸ hn.row_lt, hn.column ▸ hn.column_lt⟩

theorem parse_a1_of_lt (hr : p.row + 1 < 2 ^ 32) (hc : p.column + 1 < 2 ^ 32) :
    parse p.a1 = .ok p := by
  have := Column.limit_add_one
  exact parse_a1 (by omega) (by omega)

/-- Exactly the addresses are read, each as the position that it denotes; the complaint about any
other text holds that text as it was given. Positions within the limits are read back from their
printed form, and what has been read is within the limits. -/
theorem parse_denotes (text : String) :
    (∀ p, parse text = .ok p ↔ Denotes text p) ∧
    ((∀ p, ¬ Denotes text p) → parse text = .error ⟨text⟩) ∧
    (∀ p : Position, p.row < 2 ^ 32 - 1 → p.column < 2 ^ 32 - 1 → parse p.a1 = .ok p) ∧
    ∀ p, parse text = .ok p →
      p.row + 1 < 2 ^ 32 ∧ p.column + 1 < 2 ^ 32 ∧ parse p.a1 = .ok p := by
  refine ⟨fun p => parse_eq_ok_iff, parse_eq_error, ?_, ?_⟩
  · intro p hr hc
    exact parse_a1_of_lt (by omega) (by omega)
  · intro p hp
    obtain ⟨hr, hc⟩ := (parse_eq_ok_iff.mp hp).limits
    exact ⟨hr, hc, parse_a1_of_lt hr hc⟩

def lowered : Spelling where
  letters := ['a', 'B']
  digits := ['0', '1', '2']
  letters_ne_nil := by decide
  isAlpha := by simp
  digits_ne_nil := by decide
  isDigit := by simp

theorem denotes_lowered : Denotes "\u00a0$a$B0$12\t" ⟨11, 27⟩ := by
  have hcolumn : lowered.column = 28 := by decide
  have hrow : lowered.row = 12 := by decide
  have htrim : Blank.Trimmed "\u00a0$a$B0$12\t".toList "$a$B0$12".toList := by
    refine ⟨⟨['\u00a0'], ['\t'], by decide, ?_, ?_⟩, ?_, ?_⟩ <;> simp <;> decide
  exact ⟨_, lowered, htrim, by decide, ⟨hcolumn, by omega, hrow, by omega⟩⟩

theorem not_denotes_rowless (p : Position) : ¬ Denotes " A$ " p := by
  rintro ⟨middle, s, ht, hs, -⟩
  have hmiddle : middle = ['A', '$'] := by
    rw [← Blank.trim_eq_iff.mpr ht]
    decide
  have hmem : s.digits.head s.digits_ne_nil ∈ s.text := by simp [Spelling.text]
  rw [← hs, hmiddle] at hmem
  have hA : s.digits.head s.digits_ne_nil = 'A' := by simpa using hmem
  have hd := s.isDigit _ (List.head_mem s.digits_ne_nil)
  rw [hA] at hd
  exact absurd hd (by decide)

/-- There is no row in the third text, and the last one is the last address that fits. -/
theorem parse_denotes_lowered :
    parse "\u00a0$a$B0$12\t" = .ok ⟨11, 27⟩ ∧ parse "AB12" = .ok ⟨11, 27⟩ ∧
    parse " A$ " = .error ⟨" A$ "⟩ ∧
    parse "MWLQKWU4294967295" = .ok ⟨4294967294, 4294967294⟩ := by
  have hread := ((parse_denotes "\u00a0$a$B0$12\t").1 ⟨11, 27⟩).mpr denotes_lowered
  have hprint : a1 ⟨11, 27⟩ = "AB12" := by cbv
  have hlast : a1 ⟨4294967294, 4294967294⟩ = "MWLQKWU4294967295" := by cbv
  refine ⟨hread, ?_, (parse_denotes " A$ ").2.1 not_denotes_rowless, ?_⟩
  · rw [← hprint]
    exact ((parse_denotes _).2.2.2 _ hread).2.2
  · rw [← hlast]
    exact (parse_denotes "").2.2.1 _ (by simp) (by simp)

end Position
end FormulaDigest
