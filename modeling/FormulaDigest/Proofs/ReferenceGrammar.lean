import FormulaDigest.Proofs.Runs
import FormulaDigest.Reference

/-!
# The grammar of references

A reference is well formed if it has one to three capital letters and at least one digit. Reading
finds the well-formed reference at the beginning of a text, with all the digits that follow. A
capital letter right before a row number is the core of a reference: no reference is without one,
and one is always found where there is a core.
-/
namespace FormulaDigest.Reference

structure WellFormed (r : Reference) : Prop where
  letters_ne_nil : r.letters ≠ []
  length_letters : r.letters.length ≤ 3
  isUpper : ∀ c ∈ r.letters, c.isUpper = true
  digits_ne_nil : r.digits ≠ []
  isDigit : ∀ c ∈ r.digits, c.isDigit = true

theorem marker_markerText (marked : Bool) {cs : List Char} (h : ∀ c ∈ cs.head?, c ≠ '$') :
    marker (markerText marked ++ cs) = (marked, cs) := by
  cases marked with
  | true => rfl
  | false =>
    cases cs with
    | nil => rfl
    | cons c cs => simp [markerText, marker, h c rfl]

/-- A reference is read where it stands, if no digit follows it. -/
theorem read?_text_append {r : Reference} {rest : List Char} (hr : r.WellFormed)
    (ended : ∀ c ∈ rest.head?, c.isDigit = false) : read? (r.text ++ rest) = some (r, rest) := by
  have hd : ∀ c ∈ (r.digits ++ rest).head?, c.isDigit = true := by
    rw [List.head?_append_of_ne_nil _ hr.digits_ne_nil]
    exact fun c hc => hr.isDigit c (List.mem_of_mem_head? hc)
  have hrow : ∀ c ∈ (markerText r.rowMarked ++ (r.digits ++ rest)).head?, c.isUpper = false := by
    cases r.rowMarked with
    | true => simp [markerText]
    | false => exact fun c hc => isUpper_eq_false_of_isDigit (hd c hc)
  have hcol : ∀ c ∈ (r.letters ++ (markerText r.rowMarked ++ (r.digits ++ rest))).head?,
      c ≠ '$' := by
    rw [List.head?_append_of_ne_nil _ hr.letters_ne_nil]
    exact fun c hc => ne_dollar_of_isUpper (hr.isUpper c (List.mem_of_mem_head? hc))
  simp only [read?, text, List.append_assoc, marker_markerText _ hcol,
    takeWhile_run hr.isUpper hrow, dropWhile_run hr.isUpper hrow,
    marker_markerText _ fun c hc => ne_dollar_of_isDigit (hd c hc),
    takeWhile_run hr.isDigit ended, dropWhile_run hr.isDigit ended]
  rw [if_pos ⟨List.length_pos_iff.mpr hr.letters_ne_nil, hr.length_letters, hr.digits_ne_nil⟩]

theorem wellFormed_of_read? {cs rest : List Char} {r : Reference}
    (h : read? cs = some (r, rest)) : r.WellFormed ∧ ∀ c ∈ rest.head?, c.isDigit = false := by
  simp only [read?, Option.ite_none_right_eq_some, Option.some.injEq, Prod.mk.injEq] at h
  obtain ⟨⟨hl, hl', hd⟩, rfl, rfl⟩ := h
  exact ⟨⟨List.length_pos_iff.mp hl, hl', fun c => List.mem_takeWhile_imp, hd,
    fun c => List.mem_takeWhile_imp⟩, head?_dropWhile_eq_false⟩

theorem read?_eq_some_iff {cs rest : List Char} {r : Reference} :
    read? cs = some (r, rest) ↔
      r.WellFormed ∧ (∀ c ∈ rest.head?, c.isDigit = false) ∧ r.text ++ rest = cs := by
  constructor
  · intro h
    obtain ⟨hr, ended⟩ := wellFormed_of_read? h
    exact ⟨hr, ended, text_append_of_read? h⟩
  · rintro ⟨hr, ended, rfl⟩
    exact read?_text_append hr ended

/-- Where a well-formed reference stands, reading succeeds, perhaps with more digits. -/
theorem read?_text_append_ne_none {r : Reference} (hr : r.WellFormed) (rest : List Char) :
    read? (r.text ++ rest) ≠ none := by
  let q : Reference := { r with digits := r.digits ++ rest.takeWhile Char.isDigit }
  have hq : q.WellFormed := by
    refine ⟨hr.letters_ne_nil, hr.length_letters, hr.isUpper, by simp [q, hr.digits_ne_nil], ?_⟩
    intro c hc
    rcases List.mem_append.mp hc with hc | hc
    · exact hr.isDigit c hc
    · exact List.mem_takeWhile_imp hc
  have ht : q.text ++ rest.dropWhile Char.isDigit = r.text ++ rest := by
    simp [q, text, List.takeWhile_append_dropWhile]
  rw [← ht, read?_text_append hq head?_dropWhile_eq_false]
  simp

theorem text_ne_nil {r : Reference} (hr : r.WellFormed) : r.text ≠ [] := by
  simp [text, hr.digits_ne_nil]

/-- A text starts with a digit, after at most one absolute marker. -/
def StartsRow : List Char → Prop
  | [] => False
  | c :: cs => c.isDigit = true ∨ c = '$' ∧ ∃ d ∈ cs.head?, d.isDigit = true

/-- Somewhere in a text a capital letter stands right before a row number. -/
def HasCore (cs : List Char) : Prop :=
  ∃ u rest, (u :: rest) <:+ cs ∧ u.isUpper = true ∧ StartsRow rest

theorem startsRow_of_isDigit {cs : List Char} (h : ∃ d ∈ cs.head?, d.isDigit = true) :
    StartsRow cs := by
  obtain ⟨d, hd, hdd⟩ := h
  obtain ⟨rest, rfl⟩ := List.head?_eq_some_iff.mp hd
  exact .inl hdd

theorem startsRow_cases {cs : List Char} (h : StartsRow cs) :
    (∃ d rest, cs = d :: rest ∧ d.isDigit = true) ∨
      ∃ d rest, cs = '$' :: d :: rest ∧ d.isDigit = true := by
  cases cs with
  | nil => exact h.elim
  | cons c cs =>
    rcases h with hc | ⟨rfl, d, hd, hdd⟩
    · exact .inl ⟨c, cs, rfl, hc⟩
    · obtain ⟨rest, rfl⟩ := List.head?_eq_some_iff.mp hd
      exact .inr ⟨d, rest, rfl, hdd⟩

theorem startsRow_markerText (marked : Bool) {cs : List Char}
    (h : ∃ d ∈ cs.head?, d.isDigit = true) : StartsRow (markerText marked ++ cs) := by
  cases marked with
  | true => exact .inr ⟨rfl, h⟩
  | false => exact startsRow_of_isDigit h

theorem not_hasCore_nil : ¬ HasCore [] := by
  rintro ⟨u, rest, hs, -⟩
  simp at hs

theorem hasCore_cons {c : Char} {cs : List Char} :
    HasCore (c :: cs) ↔ c.isUpper = true ∧ StartsRow cs ∨ HasCore cs := by
  constructor
  · rintro ⟨u, rest, hs, hu, hr⟩
    rcases List.suffix_cons_iff.mp hs with hs | hs
    · obtain ⟨rfl, rfl⟩ := List.cons.inj hs
      exact .inl ⟨hu, hr⟩
    · exact .inr ⟨u, rest, hs, hu, hr⟩
  · rintro (⟨hu, hr⟩ | ⟨u, rest, hs, hu, hr⟩)
    · exact ⟨c, cs, List.suffix_rfl, hu, hr⟩
    · exact ⟨u, rest, hs.trans (List.suffix_cons c cs), hu, hr⟩

/-- A reference is found wherever there is a core. -/
theorem read?_core_ne_none {u : Char} {cs : List Char} (hu : u.isUpper = true)
    (hr : StartsRow cs) : read? (u :: cs) ≠ none := by
  have single (marked : Bool) {d : Char} (hd : d.isDigit = true) :
      WellFormed ⟨false, [u], marked, [d]⟩ :=
    ⟨by simp, by simp, by simpa using hu, by simp, by simpa using hd⟩
  rcases startsRow_cases hr with ⟨d, rest, rfl, hd⟩ | ⟨d, rest, rfl, hd⟩
  · exact read?_text_append_ne_none (single false hd) rest
  · exact read?_text_append_ne_none (single true hd) rest

/-- No reference is without a core. -/
theorem hasCore_text_append {r : Reference} (hr : r.WellFormed) (rest : List Char) :
    HasCore (r.text ++ rest) := by
  have hd : ∃ d ∈ (r.digits ++ rest).head?, d.isDigit = true := by
    rw [List.head?_append_of_ne_nil _ hr.digits_ne_nil]
    exact ⟨r.digits.head hr.digits_ne_nil, List.head_mem_head? _,
      hr.isDigit _ (List.head_mem _)⟩
  refine ⟨r.letters.getLast hr.letters_ne_nil, markerText r.rowMarked ++ (r.digits ++ rest), ?_,
    hr.isUpper _ (List.getLast_mem _), startsRow_markerText _ hd⟩
  refine ⟨markerText r.columnMarked ++ r.letters.dropLast, ?_⟩
  have hl := List.dropLast_append_getLast hr.letters_ne_nil
  rw [text, List.append_assoc _ r.letters.dropLast, ← List.singleton_append,
    ← List.append_assoc r.letters.dropLast, hl]
  simp only [List.append_assoc]

end FormulaDigest.Reference
