import FormulaDigest.Proofs.GridMerge

/-!
# Formulas without a text

A reader skips the slots of a formula grid that hold no text. What it stores is the normalized form
of the others, and normalizing can leave nothing: that is so for a namespace with nothing behind it
but perhaps an equals sign, and for no other text. Only there does a sheet hold an empty formula,
and an extraction then makes a record for it.
-/
namespace FormulaDigest

namespace OpenFormula

/-- The texts that are a namespace and no formula. -/
def bare : List String := ["of:", "of:=", "msoxl:", "msoxl:="]

variable {cs text : List Char}

theorem part?_ne_nil (h : part? cs = some text) : text ≠ [] := by
  obtain ⟨⟨sheet, cell⟩, -, h⟩ := Option.bind_eq_some_iff.mp h
  obtain ⟨⟨nonempty, -⟩, h⟩ := Option.ite_none_right_eq_some.mp h
  obtain rfl := Option.some.inj h
  split_ifs
  · exact nonempty
  · simp

/-- A reference is not empty in A1 notation. -/
theorem group?_ne_nil (h : group? cs = some text) : text ≠ [] := by
  obtain ⟨first, others, parts⟩ := List.exists_cons_of_ne_nil (List.splitOn_ne_nil ':' cs)
  rw [group?, parts, List.mapM_cons] at h
  obtain ⟨written, h, joined⟩ := Option.bind_eq_some_iff.mp h
  obtain ⟨cell, hcell, h⟩ := Option.bind_eq_some_iff.mp h
  obtain ⟨rest, -, h⟩ := Option.bind_eq_some_iff.mp h
  obtain rfl := Option.some.inj h
  obtain rfl := Option.some.inj joined
  have nonempty : cell ≠ [] := part?_ne_nil hcell
  cases rest with
  | nil => simpa using nonempty
  | cons second rest => simp [nonempty]

theorem unbracket_eq_nil_iff : unbracket cs = [] ↔ cs = [] := by
  cases cs with
  | nil => simp [unbracket]
  | cons c cs =>
    rw [unbracket]
    split_ifs
    case pos bracket =>
      split
      case h_1 content rest _ =>
        cases hg : group? content with
        | none => simp
        | some written => simp [group?_ne_nil hg]
      case h_2 => simp
    case neg => simp

theorem eq_of_namespaced? (h : namespaced? cs = some text) :
    cs = ['o', 'f', ':'] ++ text ∨ cs = ['m', 's', 'o', 'x', 'l', ':'] ++ text := by
  unfold namespaced? at h
  split at h
  case h_1 => exact .inl (by simpa using h)
  case h_2 => exact .inr (by simpa using h)
  case h_3 => cases h

theorem dropMark_eq_nil_iff {mark : Char} : dropMark mark cs = [] ↔ cs = [] ∨ cs = [mark] := by
  cases cs with
  | nil => simp [dropMark]
  | cons c cs =>
    rw [dropMark]
    split_ifs with marked
    · simp [marked]
    · simp [marked]

/-- Normalizing leaves nothing of a bare namespace, and something of any other text. -/
theorem normalize_eq_empty_iff {formula : String} :
    normalize formula = "" ↔ formula = "" ∨ formula ∈ bare := by
  constructor
  · intro h
    rw [normalize] at h
    split at h
    case h_1 body named =>
      have nothing : dropMark '=' body = [] := unbracket_eq_nil_iff.mp (by simpa using h)
      have whole : formula = String.ofList formula.toList := String.ofList_toList.symm
      right
      rcases eq_of_namespaced? named with spelled | spelled <;>
        rcases dropMark_eq_nil_iff.mp nothing with rfl | rfl <;>
        rw [whole, spelled] <;> decide
    case h_2 => exact .inl h
  · rintro (rfl | named)
    · rfl
    · simp only [bare, List.mem_cons, List.not_mem_nil, or_false] at named
      rcases named with rfl | rfl | rfl | rfl <;> cbv

end OpenFormula

open OpenFormula in
theorem Grid.formula?_eq_empty_iff {formulas : Grid String} {p : Position} :
    formulas.formula? p = some "" ↔ ∃ text ∈ bare, formulas.slot? p = some text := by
  simp only [Grid.formula?, Option.map_eq_some_iff, Option.filter_eq_some_iff, decide_eq_true_eq]
  constructor
  · rintro ⟨text, ⟨slot, nonempty⟩, normal⟩
    exact ⟨text, (normalize_eq_empty_iff.mp normal).resolve_left nonempty, slot⟩
  · rintro ⟨text, named, slot⟩
    have nonempty : text ≠ "" := by
      rintro rfl
      exact absurd named (by decide)
    exact ⟨text, ⟨slot, nonempty⟩, normalize_eq_empty_iff.mpr (.inr named)⟩

namespace Sheet

open Grid OpenFormula

variable {name : String} {values : Grid Datum} {formulas : Grid String} {p : Position} {c : Cell}

/-- The formula cells of merged grids stand where the formula grid holds a text. -/
theorem mem_formulaCells_ofGrids : c ∈ (ofGrids name values formulas).formulaCells ↔
    ∃ p, c = ⟨p, values.value? p, formulas.formula? p⟩ ∧ formulas.formula? p ≠ none := by
  rw [formulaCells, List.mem_filter, mem_values_cells, Cell.hasFormula, Option.isSome_iff_ne_none]
  simp only [cells_ofGrids]
  constructor
  · rintro ⟨⟨p, hc⟩, held⟩
    obtain rfl := merged?_eq_some hc
    exact ⟨p, rfl, held⟩
  · rintro ⟨p, rfl, held⟩
    refine ⟨⟨p, ?_⟩, held⟩
    rw [merged?]
    split
    case h_1 _ unheld => exact absurd unheld held
    case h_2 => rfl

/-- Every formula cell makes a record, under its address and with its formula made readable. -/
theorem mem_records_ofGrids {headers : Headers} {substitute : String → Headers → String}
    {records : List Record} {r : Record}
    (ok : (ofGrids name values formulas).extract headers substitute = .ok records) :
    r ∈ records ↔ ∃ p formula, formulas.formula? p = some formula ∧
      r = ⟨name, p.a1, (headers.get? p.column).getD "", substitute formula headers⟩ := by
  have named : (ofGrids name values formulas).name = name := by
    rw [ofGrids_eq_written, name_written]
  obtain ⟨-, rfl⟩ := extract_eq_ok_iff.mp ok
  simp only [List.mem_filterMap, mem_formulaCells_ofGrids, recordOf?, named]
  constructor
  · rintro ⟨c, ⟨p, rfl, -⟩, hr⟩
    obtain ⟨formula, held, rfl⟩ := Option.map_eq_some_iff.mp hr
    exact ⟨p, formula, held, rfl⟩
  · rintro ⟨p, formula, held, rfl⟩
    exact ⟨_, ⟨p, rfl, by simp [held]⟩, by simp [held]⟩

/-- A cell of merged grids holds an empty formula exactly where a bare namespace is stored, so no
cell does if the formula grid has none. An extraction makes a record for each stored text that is
not empty, and for a bare namespace it is the record of an empty formula. -/
theorem ofGrids_empty_formula (name : String) (values : Grid Datum) (formulas : Grid String) :
    (∀ (p : Position) (c : Cell), (ofGrids name values formulas).cells[p]? = some c →
      (c.formula = some "" ↔ ∃ text ∈ bare, formulas.slot? p = some text)) ∧
    ((∀ c ∈ (ofGrids name values formulas).formulaCells, c.formula ≠ some "") ↔
      ∀ p, ∀ text ∈ bare, formulas.slot? p ≠ some text) ∧
    ∀ headers substitute, ∃ records,
      (ofGrids name values formulas).extract headers substitute = .ok records ∧
      ∀ p, ((∃ r ∈ records, r.address = p.a1) ↔
          ∃ text, formulas.slot? p = some text ∧ text ≠ "") ∧
        ((∃ text ∈ bare, formulas.slot? p = some text) →
          ∃ r ∈ records, r.address = p.a1 ∧ r.formula = substitute "" headers) := by
  refine ⟨?_, ?_, ?_⟩
  · intro p c hc
    rw [merged?_eq_some (cells_ofGrids.symm.trans hc), formula?_eq_empty_iff]
  · constructor
    · intro filled p text named slot
      have empty : formulas.formula? p = some "" := formula?_eq_empty_iff.mpr ⟨text, named, slot⟩
      exact filled _ (mem_formulaCells_ofGrids.mpr ⟨p, rfl, by simp [empty]⟩) empty
    · intro unnamed c hc empty
      obtain ⟨p, rfl, -⟩ := mem_formulaCells_ofGrids.mp hc
      obtain ⟨text, named, slot⟩ := formula?_eq_empty_iff.mp empty
      exact unnamed p text named slot
  · intro headers substitute
    have snug : (ofGrids name values formulas).Snug := (isWritten_ofGrids name values formulas).snug
    obtain ⟨records, ok⟩ := snug.exists_extract headers substitute
    refine ⟨records, ok, fun p => ⟨?_, ?_⟩⟩
    · rw [← formula?_ne_none_iff, Option.ne_none_iff_exists']
      constructor
      · rintro ⟨r, hr, address⟩
        obtain ⟨q, formula, held, rfl⟩ := (mem_records_ofGrids ok).mp hr
        exact ⟨formula, Position.a1_injective address ▸ held⟩
      · rintro ⟨formula, held⟩
        exact ⟨_, (mem_records_ofGrids ok).mpr ⟨p, formula, held, rfl⟩, rfl⟩
    · intro named
      have held : formulas.formula? p = some "" := formula?_eq_empty_iff.mpr named
      exact ⟨_, (mem_records_ofGrids ok).mpr ⟨p, "", held, rfl⟩, rfl, rfl⟩

/-- A grid with one slot, which holds a bare namespace. -/
def bareSlot : Grid String := ⟨⟨1, 0⟩, [["of:="]]⟩

/-- The reader keeps the formula though nothing is left of it, and it is reported. -/
theorem bareSlot_recorded :
    (ofGrids "S" ⟨⟨0, 0⟩, []⟩ bareSlot).cells[(⟨1, 0⟩ : Position)]? =
      some ⟨⟨1, 0⟩, none, some ""⟩ ∧
    (ofGrids "S" ⟨⟨0, 0⟩, []⟩ bareSlot).records = .ok [⟨"S", "A2", "Col_0", ""⟩] := by
  have held : bareSlot.formula? ⟨1, 0⟩ = some "" :=
    formula?_eq_empty_iff.mpr ⟨"of:=", by decide, rfl⟩
  constructor
  · rw [cells_ofGrids, merged?, held]
    rfl
  · cbv

end Sheet

end FormulaDigest
