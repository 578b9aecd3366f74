import FormulaDigest.Proofs.Scanning
import FormulaDigest.Substitution

/-!
# Substituting twice

A second substitution finds nothing to replace, as long as no header brings a core of a reference
into the text and no token was cut off before a marked row number. The seams of the output are what
matters: whatever row number the output shows behind a seam was there in the formula, where the
scan would have used it.
-/
namespace FormulaDigest

open Utf8

namespace Reference

/-- A token ends right before an absolute marker and a digit. -/
def MarkedBehind (cs : List Char) (t : Token) : Prop :=
  ∃ before d after, before ++ '$' :: d :: after = cs ∧ t.stop = width before ∧ d.isDigit = true

theorem startsRow_append {front cs : List Char} (hne : front ≠ []) (hrow : ¬ StartsRow front)
    (h : StartsRow (front ++ cs)) : ∃ d ∈ cs.head?, d.isDigit = true := by
  cases front with
  | nil => exact absurd rfl hne
  | cons c front =>
    rcases h with hc | ⟨rfl, hd⟩
    · exact absurd (.inl hc) hrow
    · cases front with
      | nil => exact hd
      | cons d front => exact absurd (.inr ⟨rfl, hd⟩) hrow

/-- A core of a joined text lies in one of the parts or ends with a row number of the second. -/
theorem hasCore_append {front cs : List Char} (h : HasCore (front ++ cs)) :
    HasCore front ∨ HasCore cs ∨ StartsRow cs := by
  induction front with
  | nil => exact .inr (.inl h)
  | cons c front ih =>
    rw [List.cons_append, hasCore_cons] at h
    rw [hasCore_cons]
    rcases h with ⟨hc, hr⟩ | h
    · by_cases hrow : StartsRow front
      · exact .inl (.inl ⟨hc, hrow⟩)
      · cases front with
        | nil => exact .inr (.inr hr)
        | cons d front =>
          exact .inr (.inr (startsRow_of_isDigit (startsRow_append (by simp) hrow hr)))
    · rcases ih h with h | h
      · exact .inl (.inr h)
      · exact .inr h

end Reference

open Reference

/-- A text that no reference grows from when it stands in a formula. -/
structure Inert (cs : List Char) : Prop where
  core : ¬ HasCore cs
  row : ¬ StartsRow cs
  equals : cs.head? ≠ some '='

theorem inert_of_isUpper {cs : List Char} (h : ∀ c ∈ cs, c.isUpper = true) : Inert cs := by
  have hrow : ∀ rest, rest <:+ cs → ¬ StartsRow rest := by
    intro rest hs hr
    rcases startsRow_cases hr with ⟨d, rest, rfl, hd⟩ | ⟨d, rest, rfl, -⟩
    · simp [isDigit_eq_false_of_isUpper (h d (hs.mem (by simp)))] at hd
    · exact ne_dollar_of_isUpper (h '$' (hs.mem (by simp))) rfl
  refine ⟨?_, hrow cs List.suffix_rfl, ?_⟩
  · rintro ⟨u, rest, hs, -, hr⟩
    exact hrow rest ((List.suffix_cons u rest).trans hs) hr
  · intro he
    have := h '=' (List.mem_of_mem_head? he)
    revert this
    decide

namespace Headers

variable {h : Headers} {c : Char} {cs rest : List Char} {r : Reference}

theorem display_cases (h : Headers) (letters : String) :
    h.display letters = letters ∨
      ∃ column, h.get? column = some (h.display letters) ∧ h.display letters ≠ "" := by
  unfold display
  split
  next name hname =>
    split
    · exact .inl rfl
    next hne =>
      obtain ⟨column, -, hget⟩ := Option.bind_eq_some_iff.mp hname
      exact .inr ⟨column, hget, hne⟩
  · exact .inl rfl

/-- Every header that can take the place of a reference is inert. -/
def AllInert (h : Headers) : Prop :=
  ∀ column name, h.get? column = some name → name ≠ "" → Inert name.toList

theorem AllInert.displayPiece (hi : h.AllInert) (hr : r.WellFormed) :
    Inert (h.displayPiece (.reference r)) ∧ h.displayPiece (.reference r) ≠ [] := by
  rcases h.display_cases (String.ofList r.letters) with he | ⟨column, hget, hne⟩
  · rw [Headers.displayPiece, he, String.toList_ofList]
    exact ⟨inert_of_isUpper hr.isUpper, hr.letters_ne_nil⟩
  · exact ⟨hi column _ hget hne, by simpa [Headers.displayPiece] using hne⟩

/-- A text with every reference in it replaced. -/
def displayed (h : Headers) (cs : List Char) : List Char := (Piece.split cs).flatMap h.displayPiece

theorem displayed_nil : h.displayed [] = [] := by
  simp [displayed, Piece.split]

theorem displayed_plain (hread : read? (c :: cs) = none) :
    h.displayed (c :: cs) = c :: h.displayed cs := by
  rw [displayed, Piece.split_of_read?_eq_none hread, List.flatMap_cons]
  rfl

theorem displayed_reference (hread : read? (c :: cs) = some (r, rest)) :
    h.displayed (c :: cs) = h.displayPiece (.reference r) ++ h.displayed rest := by
  rw [displayed, Piece.split_of_read?_eq_some hread, List.flatMap_cons, displayed]

theorem displayed_of_not_hasCore (hc : ¬ HasCore cs) : h.displayed cs = cs := by
  induction cs with
  | nil => exact displayed_nil
  | cons c cs ih =>
    rw [hasCore_cons, not_or] at hc
    cases hread : read? (c :: cs) with
    | none => rw [displayed_plain hread, ih hc.2]
    | some found =>
      obtain ⟨hr, -, hcs⟩ := read?_eq_some_iff.mp hread
      have := hasCore_text_append hr found.2
      rw [hcs, hasCore_cons] at this
      exact (not_or.mpr hc this).elim

/-- A digit at the beginning of the output was there in the text. -/
theorem AllInert.head?_displayed (hi : h.AllInert) (cs : List Char)
    (hd : ∃ d ∈ (h.displayed cs).head?, d.isDigit = true) : ∃ d ∈ cs.head?, d.isDigit = true := by
  cases cs with
  | nil => simp [displayed_nil] at hd
  | cons c cs =>
    cases hread : read? (c :: cs) with
    | none => simpa [displayed_plain hread] using hd
    | some found =>
      obtain ⟨hp, hne⟩ := hi.displayPiece (read?_eq_some_iff.mp hread).1
      rw [displayed_reference hread, List.head?_append_of_ne_nil _ hne] at hd
      exact absurd (startsRow_of_isDigit hd) hp.row

/-- A row number at the beginning of the output was there in the text. -/
theorem AllInert.startsRow_displayed (hi : h.AllInert) (cs : List Char)
    (hrow : StartsRow (h.displayed cs)) : StartsRow cs := by
  cases cs with
  | nil => rwa [displayed_nil] at hrow
  | cons c cs =>
    cases hread : read? (c :: cs) with
    | none =>
      rw [displayed_plain hread] at hrow
      rcases hrow with hc | ⟨rfl, hd⟩
      · exact .inl hc
      · exact .inr ⟨rfl, hi.head?_displayed cs hd⟩
    | some found =>
      obtain ⟨hr, ended, -⟩ := read?_eq_some_iff.mp hread
      obtain ⟨hp, hne⟩ := hi.displayPiece hr
      rw [displayed_reference hread] at hrow
      obtain ⟨d, hd, hdd⟩ := hi.head?_displayed _ (startsRow_append hne hp.row hrow)
      simp [ended d hd] at hdd

/-- A reference is followed by no row number, neither a bare one nor a marked one. -/
theorem not_startsRow_of_read? {front : List Char} (hread : read? cs = some (r, rest))
    (hm : ¬ MarkedBehind (front ++ cs)
      ⟨width front, width front + width r.text, String.ofList r.letters⟩) : ¬ StartsRow rest := by
  obtain ⟨-, ended, rfl⟩ := read?_eq_some_iff.mp hread
  intro hrow
  rcases startsRow_cases hrow with ⟨d, rest, rfl, hd⟩ | ⟨d, rest, rfl, hd⟩
  · simp [ended d rfl] at hd
  · exact hm ⟨front ++ r.text, d, rest, by simp, (width_append ..).symm, hd⟩

/-- No reference can be read off the output. The text stands behind `front`, which is scanned
already. -/
theorem AllInert.not_hasCore_displayed (hi : h.AllInert) (front cs : List Char)
    (hm : ∀ t ∈ Piece.tokens (width front) (Piece.split cs), ¬ MarkedBehind (front ++ cs) t) :
    ¬ HasCore (h.displayed cs) := by
  fun_induction Piece.split cs generalizing front with
  | case1 => rw [displayed_nil]; exact not_hasCore_nil
  | case2 c cs r rest hread ih =>
    rw [Piece.tokens, List.forall_mem_cons] at hm
    have hrow : ¬ StartsRow rest := not_startsRow_of_read? hread hm.1
    obtain ⟨hr, -, hcs⟩ := read?_eq_some_iff.mp hread
    rw [displayed_reference hread]
    intro hcore
    rcases hasCore_append hcore with hcore | hcore | hcore
    · exact (hi.displayPiece hr).1.core hcore
    · refine ih (front ++ r.text) ?_ hcore
      rw [width_append, List.append_assoc, hcs]
      exact hm.2
    · exact hrow (hi.startsRow_displayed rest hcore)
  | case3 c cs hread ih =>
    rw [displayed_plain hread, hasCore_cons]
    rintro (⟨hc, hrow⟩ | hcore)
    · exact read?_core_ne_none hc (hi.startsRow_displayed cs hrow) hread
    · refine ih (front ++ [c]) ?_ hcore
      rw [width_append, List.append_assoc]
      exact hm

theorem AllInert.head?_displayed_ne (hi : h.AllInert) (he : cs.head? ≠ some '=') :
    (h.displayed cs).head? ≠ some '=' := by
  cases cs with
  | nil => simp [displayed_nil]
  | cons c cs =>
    cases hread : read? (c :: cs) with
    | none => simpa [displayed_plain hread] using he
    | some found =>
      obtain ⟨hp, hne⟩ := hi.displayPiece (read?_eq_some_iff.mp hread).1
      rw [displayed_reference hread, List.head?_append_of_ne_nil _ hne]
      exact hp.equals

end Headers

theorem Formula.body_ofList {cs : List Char} (h : cs.head? ≠ some '=') :
    body (String.ofList cs) = cs := by
  rw [body, String.toList_ofList]
  split
  · simp at h
  · rfl

theorem Formula.head?_body {formula : String} (h : ¬ ['=', '='] <+: formula.toList) :
    (body formula).head? ≠ some '=' := by
  rw [body]
  split
  next cs hcs =>
    intro he
    obtain ⟨rest, rfl⟩ := List.head?_eq_some_iff.mp he
    exact h ⟨rest, by rw [hcs]; rfl⟩
  next hcs =>
    intro he
    obtain ⟨rest, hrest⟩ := List.head?_eq_some_iff.mp he
    exact hcs rest hrest

namespace Headers

theorem inert_placeholder (column : Nat) : Inert (placeholder column).toList := by
  have hl : (placeholder column).toList = 'C' :: 'o' :: 'l' :: '_' :: Nat.toDigits 10 column := by
    simp [placeholder, Nat.toList_repr]
  have hd : ¬ HasCore (Nat.toDigits 10 column) := by
    rintro ⟨u, rest, hs, hu, -⟩
    have := Position.isDigit_of_mem_rowDigits (hs.mem List.mem_cons_self)
    simp [isUpper_eq_false_of_isDigit this] at hu
  rw [hl]
  refine ⟨?_, by simp [StartsRow], by simp⟩
  simp [hasCore_cons, hd, StartsRow]

/-- Under headers from which no reference grows, a formula that starts with at most one equals
sign and in which no token is followed by a marked row number loses all its references at once.
Placeholders are such headers. -/
theorem substitute_settles :
    (∀ column, Inert (placeholder column).toList) ∧
    ∀ (h : Headers) (formula : String), ¬ ['=', '='] <+: formula.toList →
      (∀ t ∈ scan (String.ofList (Formula.body formula)),
        ¬ MarkedBehind (Formula.body formula) t) →
      h.AllInert →
      scan (h.substitute formula) = [] ∧
        h.substitute (h.substitute formula) = h.substitute formula := by
  refine ⟨inert_placeholder, fun h formula he hm hi => ?_⟩
  have hcore : ¬ HasCore (h.displayed (Formula.body formula)) := by
    refine hi.not_hasCore_displayed [] _ fun t ht => hm t ?_
    simpa [scan, width] using ht
  have hbody := Formula.body_ofList (hi.head?_displayed_ne (Formula.head?_body he))
  have hout : h.substitute formula = String.ofList (h.displayed (Formula.body formula)) := rfl
  have htwice : h.substitute (h.substitute formula) =
      String.ofList (h.displayed (Formula.body (h.substitute formula))) := rfl
  constructor
  · rw [hout, scan, tokens_split_eq_nil_iff, String.toList_ofList]
    exact hcore
  · rw [htwice, hout, hbody, displayed_of_not_hasCore hcore]

def yearly : Headers := ofList [(0, "Year 2024"), (1, "")]

theorem allInert_yearly : yearly.AllInert := by
  intro column name h hne
  simp only [get?, yearly, ofList, List.foldl_cons, List.foldl_nil,
    Std.ExtTreeMap.getElem?_insert, Std.ExtTreeMap.getElem?_empty] at h
  split at h
  · exact absurd (Option.some.inj h).symm hne
  · split at h
    · obtain rfl := Option.some.inj h
      refine ⟨?_, ?_, by decide⟩
      · simp [hasCore_cons, StartsRow, not_hasCore_nil]
      · simp [StartsRow]
    · simp at h

/-- The header of `A` ends in a number, that of `B` is empty and `C` has none. -/
theorem substitute_settles_yearly :
    yearly.substitute "=$A$1*B2+$C" = "Year 2024*B+$C" ∧ scan "Year 2024*B+$C" = [] ∧
    yearly.substitute "Year 2024*B+$C" = "Year 2024*B+$C" := by
  have hout : yearly.substitute "=$A$1*B2+$C" = "Year 2024*B+$C" := by cbv
  have hscan : scan (String.ofList (Formula.body "=$A$1*B2+$C")) =
      [⟨0, 4, "A"⟩, ⟨5, 7, "B"⟩] := by cbv
  have hm : ∀ t ∈ scan (String.ofList (Formula.body "=$A$1*B2+$C")),
      ¬ MarkedBehind (Formula.body "=$A$1*B2+$C") t := by
    rw [hscan]
    rintro t ht ⟨before, d, after, hb, hw, hd⟩
    have hbody : Formula.body "=$A$1*B2+$C" =
      ['$', 'A', '$', '1', '*', 'B', '2', '+', '$', 'C'] := by cbv
    rw [hbody] at hb
    -- The only marker before a digit stands inside the first token.
    simp [List.append_eq_cons_iff, List.cons_eq_append_iff] at hb
    rcases hb with ⟨rfl, rfl, -⟩ | ⟨middle, rfl, ⟨rfl, rfl, -⟩ | ⟨rfl, rfl, -⟩⟩
    · exact absurd hd (by decide)
    · have hstop : t.stop = 2 := hw
      simp only [List.mem_cons, List.not_mem_nil, or_false] at ht
      rcases ht with rfl | rfl <;> simp at hstop
    · exact absurd hd (by decide)
  have h := substitute_settles.2 yearly "=$A$1*B2+$C" (by decide) hm allInert_yearly
  rw [hout] at h
  exact ⟨hout, h⟩

end Headers

end FormulaDigest
