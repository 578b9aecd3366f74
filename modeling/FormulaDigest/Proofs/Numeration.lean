import FormulaDigest.Proofs.AddressGrammar

/-!
# The numeration of columns

Column letters are digits from one to 26 without a zero, so every column has one name and every run
of letters names one column. Shorter names stand before longer ones and names of one length in
alphabetical order. Printing takes the digits off from the last one and reading puts them on from
the first one. Neither leaves 32 bits on its way: a printer never goes below zero, and a reader
stops at the first number that is too large. Numbers count from one, so the last of the columns of
32 bits has a name that is not read.
-/
namespace FormulaDigest.Column

variable {cs ds : List Char} {c d : Char} {column : Nat} {s : String}

/-! ### Order -/

theorem letterValue_lt (hc : c.isUpper = true) (hd : d.isUpper = true) (h : c < d) :
    letterValue c < letterValue d := by
  have hn : c.toNat < d.toNat := by
    simpa [Char.lt_def, UInt32.lt_iff_toNat_lt] using h
  have := letterValue_add hc
  have := letterValue_add hd
  omega

theorem value_cons (c : Char) (cs : List Char) :
    value (c :: cs) = 26 ^ cs.length * letterValue c + value cs := by
  simp only [value_eq_ofDigits, List.reverse_cons, List.map_append, Nat.ofDigits_append,
    List.map_cons, List.map_nil, Nat.ofDigits_singleton, List.length_map, List.length_reverse]
  omega

/-- A run of `n` letters denotes at least `1 + 26 + ⋯ + 26 ^ (n - 1)`. -/
theorem le_value (cs : List Char) : 26 ^ cs.length ≤ 25 * value cs + 1 := by
  induction cs using List.reverseRecOn with
  | nil => simp
  | append_singleton cs c ih =>
    have hc : 1 ≤ letterValue c := by simp [letterValue]
    rw [value_concat, List.length_append, List.length_singleton, Nat.pow_succ]
    omega

theorem value_lt_of_length_lt (hc : ∀ c ∈ cs, c.isUpper = true) (h : cs.length < ds.length) :
    value cs < value ds := by
  have upper := value_le hc
  have lower := le_value ds
  have hp : 26 ^ (cs.length + 1) ≤ 26 ^ ds.length := Nat.pow_le_pow_right (by omega) h
  omega

theorem value_lt_of_lex (hc : ∀ c ∈ cs, c.isUpper = true) (hd : ∀ d ∈ ds, d.isUpper = true)
    (hl : cs.length = ds.length) (h : List.Lex (· < ·) cs ds) : value cs < value ds := by
  induction h with
  | nil => simp at hl
  | cons h ih =>
    simp only [List.length_cons, Nat.add_right_cancel_iff] at hl
    have := ih (fun c h => hc c (by simp [h])) (fun d h => hd d (by simp [h])) hl
    rw [value_cons, value_cons, hl]
    omega
  | @rel c cs d ds h =>
    simp only [List.length_cons, Nat.add_right_cancel_iff] at hl
    have hv : letterValue c + 1 ≤ letterValue d :=
      letterValue_lt (hc c (by simp)) (hd d (by simp)) h
    -- One more in the first letter outweighs all that the other letters can make up.
    have lead := Nat.mul_le_mul_left (26 ^ ds.length) hv
    have upper := value_le fun c h => hc c (List.mem_cons_of_mem _ h)
    have lower := le_value ds
    rw [hl, Nat.pow_succ] at upper
    rw [value_cons, value_cons, hl]
    rw [Nat.mul_add] at lead
    omega

theorem value_lt_of_shortlex (hc : ∀ c ∈ cs, c.isUpper = true) (hd : ∀ d ∈ ds, d.isUpper = true)
    (h : List.Shortlex (· < ·) cs ds) : value cs < value ds := by
  rcases List.shortlex_def.mp h with shorter | ⟨hl, lex⟩
  · exact value_lt_of_length_lt hc shorter
  · exact value_lt_of_lex hc hd hl lex

/-- Runs of letters that denote the same number are equal: different runs stand in order, and so do
their numbers. -/
theorem eq_of_value_eq (hc : ∀ c ∈ cs, c.isUpper = true) (hd : ∀ d ∈ ds, d.isUpper = true)
    (h : value cs = value ds) : cs = ds := by
  rcases trichotomous (r := List.Shortlex (· < ·)) cs ds with lt | eq | gt
  · have := value_lt_of_shortlex hc hd lt
    omega
  · exact eq
  · have := value_lt_of_shortlex hd hc gt
    omega

theorem shortlex_iff_value_lt (hc : ∀ c ∈ cs, c.isUpper = true) (hd : ∀ d ∈ ds, d.isUpper = true) :
    List.Shortlex (· < ·) cs ds ↔ value cs < value ds := by
  refine ⟨value_lt_of_shortlex hc hd, fun h => ?_⟩
  rcases trichotomous (r := List.Shortlex (· < ·)) cs ds with lt | eq | gt
  · exact lt
  · rw [eq] at h
    omega
  · have := value_lt_of_shortlex hd hc gt
    omega

theorem shortlex_letters_iff (a b : Nat) :
    List.Shortlex (· < ·) (letters a) (letters b) ↔ a < b := by
  rw [shortlex_iff_value_lt (fun _ => isUpper_of_mem_letters) fun _ => isUpper_of_mem_letters,
    value_letters, value_letters, Nat.add_lt_add_iff_right]

/-! ### Printing -/

/-- The columns that printing goes through, a digit taken off each. The quotient of a column with
more than one digit is not zero, so that there is a column one below it. -/
inductive Rounds : Nat → List Nat → Prop
  | last {column : Nat} (small : column < 26) : Rounds column [column]
  | more {column next : Nat} {rest : List Nat} (large : 26 ≤ column)
      (exact : next + 1 = column / 26) (onward : Rounds next rest) : Rounds column (column :: rest)

theorem exists_rounds (column : Nat) : ∃ visited, Rounds column visited := by
  induction column using Nat.strongRecOn with
  | ind column ih =>
    by_cases small : column < 26
    · exact ⟨_, .last small⟩
    · obtain ⟨rest, onward⟩ := ih (column / 26 - 1) (by omega)
      exact ⟨_, .more (by omega) (by omega) onward⟩

theorem Rounds.le {visited : List Nat} (h : Rounds column visited) : ∀ n ∈ visited, n ≤ column := by
  induction h with
  | last small => simp
  | more large exact onward ih =>
    intro n hn
    rcases List.mem_cons.mp hn with rfl | hn
    · exact Nat.le_refl _
    · have := ih n hn
      omega

theorem Rounds.letters_eq {visited : List Nat} (h : Rounds column visited) :
    letters column = (visited.map fun n => letter (n % 26)).reverse := by
  induction h with
  | last small => rw [letters, if_pos small]; rfl
  | @more column next rest large exact onward ih =>
    have hn : column / 26 - 1 = next := by omega
    rw [letters, if_neg (by omega), hn, ih, List.map_cons, List.reverse_cons]

/-- Seven letters suffice for a number of 32 bits. -/
theorem length_letters_le (h : column < 2 ^ 32) : (letters column).length ≤ 7 := by
  by_contra hl
  have hv := le_value (letters column)
  have hp : 26 ^ 8 ≤ 26 ^ (letters column).length := Nat.pow_le_pow_right (by omega) (by omega)
  rw [value_letters] at hv
  omega

theorem isUpper_iff_between : c.isUpper = true ↔ 'A' ≤ c ∧ c ≤ 'Z' := by
  simp [Char.isUpper, Char.le_def]

theorem toList_name (column : Nat) : (name column).toList = letters column := by
  simp [name]

theorem name_ne_empty (column : Nat) : name column ≠ "" := by
  rw [ne_eq, ← String.toList_eq_nil_iff, toList_name]
  exact letters_ne_nil column

theorem name_injective : Function.Injective name := by
  intro a b h
  apply letters_injective
  rw [← toList_name, ← toList_name, h]

theorem exists_rounds_name (h : column < 2 ^ 32) : ∃ visited, Rounds column visited ∧
    visited.length ≤ 7 ∧ (∀ n ∈ visited, n < 2 ^ 32) ∧
    (name column).toList = (visited.map fun n => letter (n % 26)).reverse := by
  obtain ⟨visited, rounds⟩ := exists_rounds column
  have hl := length_letters_le h
  rw [rounds.letters_eq, List.length_reverse, List.length_map] at hl
  refine ⟨visited, rounds, hl, fun n hn => ?_, ?_⟩
  · have := rounds.le n hn
    omega
  · rw [toList_name, rounds.letters_eq]

/-! ### Reading -/

/-- The place of a letter in the alphabet, in either case: one for `A` and 26 for `Z`. -/
def place (c : Char) : Nat :=
  "ABCDEFGHIJKLMNOPQRSTUVWXYZ".toList.idxOf c.toUpper + 1

/-- The number that a text of letters is in bijective base 26, the last letter counting ones. -/
def number (s : String) : Nat :=
  Nat.ofDigits 26 (s.toList.reverse.map place)

/-- A text of letters of the alphabet, at least one, in either case. -/
structure Lettered (s : String) : Prop where
  ne_empty : s ≠ ""
  isAlpha : ∀ c ∈ s.toList, c.isAlpha = true

theorem exists_letter (h : c.isUpper = true) : ∃ digit < 26, c = letter digit := by
  have hn := isUpper_iff.mp h
  refine ⟨c.toNat - 65, by omega, ?_⟩
  have hA : 'A'.toNat + (c.toNat - 65) = c.toNat := by
    have : 'A'.toNat = 65 := rfl
    omega
  rw [letter, hA, Char.ofNat_toNat]

theorem letterValue_toUpper (c : Char) : letterValue c.toUpper = letterValue c := by
  simp [letterValue]

theorem place_eq_letterValue (h : c.isAlpha = true) : place c = letterValue c := by
  have all : ∀ digit : Fin 26, place (letter digit) = letterValue (letter digit) := by decide
  obtain ⟨digit, small, hc⟩ := exists_letter (c.isUpper_toUpper_eq_isAlpha.trans h)
  have := all ⟨digit, small⟩
  rw [← hc, letterValue_toUpper] at this
  simpa [place] using this

theorem Lettered.number_eq (h : Lettered s) : number s = value s.toList := by
  rw [number, value_eq_ofDigits]
  congr 1
  apply List.map_congr_left
  intro c hc
  exact place_eq_letterValue (h.isAlpha c (List.mem_reverse.mp hc))

theorem Lettered.one_le_number (h : Lettered s) : 1 ≤ number s := by
  rw [h.number_eq]
  exact one_le_value (by simpa using h.ne_empty)

theorem lettered_name (column : Nat) : Lettered (name column) := by
  refine ⟨name_ne_empty column, fun c hc => ?_⟩
  rw [toList_name] at hc
  simp [Char.isAlpha, isUpper_of_mem_letters hc]

theorem number_name (column : Nat) : number (name column) = column + 1 := by
  rw [(lettered_name column).number_eq, toList_name, value_letters]

theorem value_map_toUpper (cs : List Char) : value (cs.map Char.toUpper) = value cs := by
  simp only [value, List.foldl_map, letterValue_toUpper]

/-- A text of letters is the name of the column that it denotes. -/
theorem Lettered.name_eq (h : Lettered s) (hn : number s = column + 1) :
    name column = s.toUpper := by
  have upper : ∀ c ∈ s.toList.map Char.toUpper, c.isUpper = true := by
    intro c hc
    obtain ⟨d, hd, rfl⟩ := List.mem_map.mp hc
    rw [Char.isUpper_toUpper_eq_isAlpha, h.isAlpha d hd]
  have same : letters column = s.toList.map Char.toUpper := by
    apply eq_of_value_eq (fun _ => isUpper_of_mem_letters) upper
    rw [value_letters, value_map_toUpper, ← h.number_eq, hn]
  apply String.toList_injective
  rw [toList_name, same, String.toUpper, String.toList_map]

/-- The texts that name a column are those of letters whose number fits 32 bits. -/
theorem ofName?_eq_some_iff :
    ofName? s = some column ↔ Lettered s ∧ number s ≤ 2 ^ 32 - 1 ∧ column + 1 = number s := by
  have hl := limit_add_one
  rw [ofName?, ofLetters?_eq_some_iff]
  constructor
  · rintro ⟨hne, ha, hv, small⟩
    have lettered : Lettered s := ⟨by simpa using hne, ha⟩
    have := lettered.number_eq
    exact ⟨lettered, by omega, by omega⟩
  · rintro ⟨lettered, small, hv⟩
    have := lettered.number_eq
    exact ⟨by simpa using lettered.ne_empty, lettered.isAlpha, by omega, by omega⟩

theorem ofName?_eq_none_iff :
    ofName? s = none ↔ s = "" ∨ (∃ c ∈ s.toList, c.isAlpha = false) ∨ 2 ^ 32 - 1 < number s := by
  rw [Option.eq_none_iff_forall_ne_some]
  simp only [ne_eq, ofName?_eq_some_iff]
  constructor
  · intro h
    by_contra hn
    simp only [not_or, not_exists, not_and, Bool.not_eq_false, Nat.not_lt] at hn
    obtain ⟨hne, ha, small⟩ := hn
    have lettered : Lettered s := ⟨hne, ha⟩
    have := lettered.one_le_number
    exact h (number s - 1) ⟨lettered, small, by omega⟩
  · rintro (rfl | ⟨c, hc, ha⟩ | large) column ⟨lettered, small, -⟩
    · exact lettered.ne_empty rfl
    · rw [lettered.isAlpha c hc] at ha
      cases ha
    · omega

theorem name_of_ofName? (h : ofName? s = some column) : name column = s.toUpper := by
  obtain ⟨lettered, -, hn⟩ := ofName?_eq_some_iff.mp h
  exact lettered.name_eq hn.symm

/-- A number, as long as it fits 32 bits. -/
def checked (n : Nat) : Option Nat :=
  if n ≤ limit then some n else none

/-- One more digit behind a number, with a check after each of the two operations. -/
def push? (n : Nat) (c : Char) : Option Nat :=
  if c.isAlpha then (checked (26 * n)).bind fun m => checked (m + letterValue c) else none

theorem push?_eq_some_iff {n m : Nat} :
    push? n c = some m ↔ c.isAlpha = true ∧ 26 * n + letterValue c = m ∧ m ≤ limit := by
  simp only [push?, checked, Option.ite_none_right_eq_some, Option.bind_eq_some_iff,
    Option.some.injEq]
  constructor
  · rintro ⟨ha, -, ⟨-, rfl⟩, small, rfl⟩
    exact ⟨ha, rfl, small⟩
  · rintro ⟨ha, rfl, small⟩
    exact ⟨ha, _, ⟨by omega, rfl⟩, small, rfl⟩

/-- A number only grows with its digits, so that it fits in the end if and only if it always has. -/
theorem foldlM_push?_eq_some_iff {m : Nat} :
    cs.foldlM push? 0 = some m ↔ (∀ c ∈ cs, c.isAlpha = true) ∧ value cs = m ∧ m ≤ limit := by
  induction cs using List.reverseRecOn generalizing m with
  | nil =>
    simp only [List.foldlM_nil, value, List.foldl_nil]
    constructor
    · rintro ⟨⟩
      simp
    · rintro ⟨-, rfl, -⟩
      rfl
  | append_singleton cs c ih =>
    simp only [List.foldlM_append, List.foldlM_cons, List.foldlM_nil, bind_pure,
      Option.bind_eq_bind, Option.bind_eq_some_iff, ih, push?_eq_some_iff, value_concat]
    constructor
    · rintro ⟨n, ⟨ha, rfl, -⟩, hc, hv, small⟩
      refine ⟨?_, hv, small⟩
      intro d hd
      rcases List.mem_append.mp hd with hd | hd
      · exact ha d hd
      · rw [List.mem_singleton.mp hd, hc]
    · rintro ⟨ha, hv, small⟩
      exact ⟨_, ⟨fun d hd => ha d (by simp [hd]), rfl, by omega⟩, ha c (by simp), hv, small⟩

theorem ofName?_eq_foldlM (h : s ≠ "") : ofName? s = (s.toList.foldlM push? 0).map (· - 1) := by
  have hne : s.toList ≠ [] := by simpa using h
  ext column
  simp only [ofName?, ofLetters?_eq_some_iff, Option.map_eq_some_iff, foldlM_push?_eq_some_iff]
  have := one_le_value hne
  constructor
  · rintro ⟨-, ha, hv, small⟩
    exact ⟨_, ⟨ha, rfl, by omega⟩, by omega⟩
  · rintro ⟨-, ⟨ha, rfl, small⟩, rfl⟩
    exact ⟨hne, ha, by omega, by omega⟩

theorem ofName?_name (h : column < 2 ^ 32) :
    ofName? (name column) = if column = 2 ^ 32 - 1 then none else some column := by
  have hn := number_name column
  split
  case isTrue last =>
    exact ofName?_eq_none_iff.mpr (.inr (.inr (by omega)))
  case isFalse inside =>
    exact ofName?_eq_some_iff.mpr ⟨lettered_name column, by omega, hn.symm⟩

/-- Names and columns: how a name is printed, in what order names stand, which texts are read and
as what, and the one column of 32 bits that is not read back. -/
theorem bijective_numeration :
    (∀ column < 2 ^ 32, ∃ visited, Rounds column visited ∧ visited.length ≤ 7 ∧
      (∀ n ∈ visited, n < 2 ^ 32) ∧
      (name column).toList = (visited.map fun n => letter (n % 26)).reverse) ∧
    (∀ column, name column ≠ "" ∧ (∀ c ∈ (name column).toList, 'A' ≤ c ∧ c ≤ 'Z') ∧
      number (name column) = column + 1) ∧
    Function.Injective name ∧
    (∀ a b, List.Shortlex (· < ·) (name a).toList (name b).toList ↔ a < b) ∧
    (∀ s column, ofName? s = some column ↔
      Lettered s ∧ number s ≤ 2 ^ 32 - 1 ∧ column + 1 = number s) ∧
    (∀ s, ofName? s = none ↔
      s = "" ∨ (∃ c ∈ s.toList, c.isAlpha = false) ∨ 2 ^ 32 - 1 < number s) ∧
    (∀ s, s ≠ "" → ofName? s = (s.toList.foldlM push? 0).map (· - 1)) ∧
    (∀ s column, ofName? s = some column → name column = s.toUpper) ∧
    ∀ column < 2 ^ 32,
      ofName? (name column) = if column = 2 ^ 32 - 1 then none else some column := by
  refine ⟨fun _ => exists_rounds_name, ?_, name_injective, ?_, fun s column => ofName?_eq_some_iff,
    fun s => ofName?_eq_none_iff, fun s => ofName?_eq_foldlM, fun s column => name_of_ofName?,
    fun column => ofName?_name⟩
  · intro column
    refine ⟨name_ne_empty column, fun c hc => ?_, number_name column⟩
    rw [toList_name] at hc
    exact isUpper_iff_between.mp (isUpper_of_mem_letters hc)
  · intro a b
    rw [toList_name, toList_name]
    exact shortlex_letters_iff a b

/-- The last two columns of 32 bits. -/
theorem bijective_numeration_last :
    ofName? "mwlQKWU" = some 4294967294 ∧ name 4294967294 = "MWLQKWU" ∧
    name 4294967295 = "MWLQKWV" ∧ ofName? "MWLQKWV" = none := by
  obtain ⟨-, -, -, -, reads, -, -, upper, back⟩ := bijective_numeration
  have lettered : Lettered "mwlQKWU" := ⟨by decide, by simp⟩
  have hn : number "mwlQKWU" = 4294967295 := by cbv
  have read : ofName? "mwlQKWU" = some 4294967294 :=
    (reads _ _).mpr ⟨lettered, by omega, by omega⟩
  have hu : "mwlQKWU".toUpper = "MWLQKWU" := by cbv
  have last : name 4294967295 = "MWLQKWV" := by cbv
  refine ⟨read, (upper _ _ read).trans hu, last, ?_⟩
  rw [← last, back 4294967295 (by omega), if_pos (by omega)]

example : name 701 = "ZZ" ∧ name 702 = "AAA" := ⟨by cbv, by cbv⟩

end FormulaDigest.Column
