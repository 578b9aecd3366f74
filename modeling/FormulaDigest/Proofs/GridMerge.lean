import FormulaDigest.Proofs.SheetWrites

/-!
# What merged grids leave

The two grids of a sheet may overlap in any way. Merging them leaves a cell exactly where one of
them holds something, with the value from one grid and the formula from the other, and a range that
is the smallest around these cells. An empty slot leaves nothing, neither a cell nor room in the
range.
-/
namespace FormulaDigest

theorem Datum.value?_eq_none_iff {d : Datum} : d.value? = none ↔ d = .empty := by
  cases d <;> simp [value?]

namespace Grid

/-- What the slot at an absolute position holds, if the grid has one there. -/
def slot? {α : Type} (g : Grid α) (p : Position) : Option α :=
  if g.origin.row ≤ p.row ∧ g.origin.column ≤ p.column then
    g.rows[p.row - g.origin.row]?.bind (·[p.column - g.origin.column]?)
  else none

/-- The value of the cell that a slot makes. -/
def value? (g : Grid Datum) (p : Position) : Option Value := (g.slot? p).bind Datum.value?

/-- The formula of the cell that a slot makes, in A1 notation. An empty text is none. -/
def formula? (g : Grid String) (p : Position) : Option String :=
  ((g.slot? p).filter (· ≠ "")).map OpenFormula.normalize

/-- One of the two grids holds something at a position. -/
def Filled (values : Grid Datum) (formulas : Grid String) (p : Position) : Prop :=
  (∃ d, values.slot? p = some d ∧ d ≠ .empty) ∨ ∃ text, formulas.slot? p = some text ∧ text ≠ ""

/-- The cell that two grids leave at a position. -/
def merged? (values : Grid Datum) (formulas : Grid String) (p : Position) : Option Cell :=
  match values.value? p, formulas.formula? p with
  | none, none => none
  | value, formula => some ⟨p, value, formula⟩

variable {α : Type} {g : Grid α} {p : Position} {a : α} {values : Grid Datum}
  {formulas : Grid String}

/-- The slots of a grid are what it holds at the absolute positions. -/
theorem mem_slots : (p, a) ∈ g.slots ↔ g.slot? p = some a := by
  simp only [slots, slot?, List.mem_flatMap, List.mem_map, Prod.exists, Prod.mk.injEq,
    List.mk_mem_zipIdx_iff_le_and_getElem?_sub, Option.ite_none_right_eq_some,
    Option.bind_eq_some_iff]
  constructor
  · rintro ⟨row, i, ⟨hi, hrow⟩, b, j, ⟨hj, hb⟩, rfl, rfl⟩
    exact ⟨⟨hi, hj⟩, row, hrow, hb⟩
  · rintro ⟨⟨hi, hj⟩, row, hrow, ha⟩
    exact ⟨row, p.row, ⟨hi, hrow⟩, a, p.column, ⟨hj, ha⟩, rfl, rfl⟩

theorem value?_ne_none_iff :
    values.value? p ≠ none ↔ ∃ d, values.slot? p = some d ∧ d ≠ .empty := by
  simp [value?, Datum.value?_eq_none_iff]

theorem formula?_ne_none_iff :
    formulas.formula? p ≠ none ↔ ∃ text, formulas.slot? p = some text ∧ text ≠ "" := by
  simp [formula?]

theorem merged?_ne_none_iff : merged? values formulas p ≠ none ↔ Filled values formulas p := by
  rw [Filled, ← value?_ne_none_iff, ← formula?_ne_none_iff, merged?]
  cases values.value? p <;> cases formulas.formula? p <;> simp

theorem merged?_eq_some {c : Cell} (h : merged? values formulas p = some c) :
    c = ⟨p, values.value? p, formulas.formula? p⟩ := by
  unfold merged? at h
  split at h
  case h_1 => cases h
  case h_2 => exact (Option.some.inj h).symm

end Grid

namespace Write

variable {writes : List Write} {w : Write} {p : Position} {content : Option Cell}

/-- A write that is done again changes nothing more. -/
theorem result_result (w : Write) (content : Option Cell) :
    w.result (some (w.result content)) = w.result content := by
  cases w with
  | cell c => rfl
  | formula p text => cases content <;> rfl

theorem foldl_update_of_untouched (h : ∀ w ∈ writes, w.position ≠ p) :
    writes.foldl (update p) content = content := by
  induction writes with
  | nil => rfl
  | cons w writes ih =>
    rw [List.foldl_cons, update, if_neg (h w List.mem_cons_self)]
    exact ih fun w hw => h w (List.mem_cons_of_mem _ hw)

/-- Where all writes to a position are the same one, it counts once. -/
theorem foldl_update_of_agree (mem : w ∈ writes) (agree : ∀ w' ∈ writes, w'.position = p → w' = w)
    (hw : w.position = p) : writes.foldl (update p) content = some (w.result content) := by
  induction writes generalizing content with
  | nil => simp at mem
  | cons w' writes ih =>
    have later : ∀ w' ∈ writes, w'.position = p → w' = w :=
      fun w' h => agree w' (List.mem_cons_of_mem _ h)
    rw [List.foldl_cons, update]
    by_cases hp : w'.position = p
    · obtain rfl := agree w' List.mem_cons_self hp
      rw [if_pos hp]
      by_cases again : w' ∈ writes
      · rw [ih again later, result_result]
      · apply foldl_update_of_untouched
        intro v hv hvp
        exact again (later v hv hvp ▸ hv)
    · rw [if_neg hp]
      rcases List.mem_cons.mp mem with rfl | mem
      · exact absurd hw hp
      · exact ih mem later

/-- The writes for the slots of a grid leave at a position what the one for its own slot leaves. -/
theorem foldl_update_slots {α : Type} {write? : Position × α → Option Write}
    (place : ∀ slot w, write? slot = some w → w.position = slot.1) (g : Grid α) :
    (g.slots.filterMap write?).foldl (update p) content =
      ((g.slot? p).bind fun a => write? (p, a)).elim content fun w => some (w.result content) := by
  have at_slot : ∀ w ∈ g.slots.filterMap write?, w.position = p →
      ((g.slot? p).bind fun a => write? (p, a)) = some w := by
    intro w hw hp
    obtain ⟨⟨q, a⟩, hslot, hwrite⟩ := List.mem_filterMap.mp hw
    obtain rfl : q = p := (place _ w hwrite).symm.trans hp
    rw [Grid.mem_slots.mp hslot, Option.bind_some, hwrite]
  cases h : (g.slot? p).bind fun a => write? (p, a) with
  | none =>
    apply foldl_update_of_untouched
    intro w hw hp
    rw [at_slot w hw hp] at h
    cases h
  | some w =>
    obtain ⟨a, hslot, hwrite⟩ := Option.bind_eq_some_iff.mp h
    have mem : w ∈ g.slots.filterMap write? :=
      List.mem_filterMap.mpr ⟨_, Grid.mem_slots.mpr hslot, hwrite⟩
    refine foldl_update_of_agree mem (fun w' hw' hp => ?_) (place _ w hwrite)
    exact Option.some.inj ((at_slot w' hw' hp).symm.trans h)

end Write

namespace Sheet

open Grid

variable {name : String} {values : Grid Datum} {formulas : Grid String} {p : Position}

theorem position_datumWrite? (slot : Position × Datum) (w : Write) (h : datumWrite? slot = some w) :
    w.position = slot.1 := by
  obtain ⟨v, -, rfl⟩ := Option.map_eq_some_iff.mp h
  rfl

theorem position_formulaWrite? (slot : Position × String) (w : Write)
    (h : formulaWrite? slot = some w) : w.position = slot.1 := by
  obtain ⟨-, hw⟩ := Option.ite_none_left_eq_some.mp h
  rw [← Option.some.inj hw, Write.position]

theorem bind_datumWrite? : ((values.slot? p).bind fun d => datumWrite? (p, d)) =
    (values.value? p).map fun v => .cell ⟨p, some v, none⟩ := by
  unfold Grid.value?
  cases values.slot? p <;> rfl

theorem bind_formulaWrite? : ((formulas.slot? p).bind fun text => formulaWrite? (p, text)) =
    (formulas.formula? p).map (.formula p) := by
  unfold Grid.formula?
  cases formulas.slot? p with
  | none => rfl
  | some text => by_cases h : text = "" <;> simp [formulaWrite?, h]

theorem cells_ofGrids : (ofGrids name values formulas).cells[p]? = merged? values formulas p := by
  rw [ofGrids_eq_written, cells_written, Write.held, List.foldl_append,
    Write.foldl_update_slots position_formulaWrite?, Write.foldl_update_slots position_datumWrite?,
    bind_datumWrite?, bind_formulaWrite?, merged?]
  cases values.value? p <;> cases formulas.formula? p <;> rfl

theorem mem_ofGrids : p ∈ (ofGrids name values formulas).cells ↔ Filled values formulas p := by
  rw [Std.ExtTreeMap.mem_iff_isSome_getElem?, cells_ofGrids, ← merged?_ne_none_iff,
    Option.isSome_iff_ne_none]

/-- What two grids hold beside empty slots determines the sheet. -/
theorem ofGrids_congr {values' : Grid Datum} {formulas' : Grid String}
    (hv : ∀ p, values.value? p = values'.value? p)
    (hf : ∀ p, formulas.formula? p = formulas'.formula? p) :
    ofGrids name values formulas = ofGrids name values' formulas' := by
  rw [ofGrids_eq_written, ofGrids_eq_written]
  apply written_congr
  intro p
  rw [← cells_written name, ← cells_written name, ← ofGrids_eq_written, ← ofGrids_eq_written,
    cells_ofGrids, cells_ofGrids, merged?, merged?, hv, hf]

/-- The merged grids of a sheet leave a cell at exactly the positions where one of them holds
something, with what the two hold there and under that position, and their range is the smallest
one around these positions. So two pairs of grids that differ in empty slots alone make one
sheet. -/
theorem ofGrids_merges (name : String) (values : Grid Datum) (formulas : Grid String) :
    (∀ p, p ∈ (ofGrids name values formulas).cells ↔ Filled values formulas p) ∧
    (∀ (p : Position) (c : Cell), (ofGrids name values formulas).cells[p]? = some c →
      c = ⟨p, values.value? p, formulas.formula? p⟩) ∧
    ((ofGrids name values formulas).range = none ↔ ∀ p, ¬ Filled values formulas p) ∧
    (∀ r, (ofGrids name values formulas).range = some r → r.Bounds (Filled values formulas)) ∧
    ∀ values' formulas', (∀ p, values.value? p = values'.value? p) →
      (∀ p, formulas.formula? p = formulas'.formula? p) →
      ofGrids name values formulas = ofGrids name values' formulas' := by
  have snug : (ofGrids name values formulas).Snug := (isWritten_ofGrids name values formulas).snug
  refine ⟨fun p => mem_ofGrids, ?_, ?_, ?_, fun values' formulas' => ofGrids_congr⟩
  · intro p c hc
    exact merged?_eq_some (cells_ofGrids.symm.trans hc)
  · rw [snug.unranged, Std.ExtTreeMap.eq_empty_iff_forall_not_mem]
    simp only [mem_ofGrids]
  · intro r hr
    exact (snug.bounds r hr).congr fun p => mem_ofGrids

/-- Values from the second row and column on, with gaps. -/
def stock : Grid Datum := ⟨⟨1, 1⟩, [[.text "Qty", .empty], [.empty, .boolean true]]⟩

/-- Formulas that reach beyond the values above and to the right. -/
def sums : Grid String := ⟨⟨0, 2⟩, [["", ""], ["", "of:=[.B2]"], ["A1", ""]]⟩

theorem filled_stock {p : Position} :
    Filled stock sums p ↔ p = ⟨1, 1⟩ ∨ p = ⟨2, 2⟩ ∨ p = ⟨1, 3⟩ := by
  have hv : stock.slots = [(⟨1, 1⟩, .text "Qty"), (⟨1, 2⟩, .empty), (⟨2, 1⟩, .empty),
    (⟨2, 2⟩, .boolean true)] := rfl
  have hf : sums.slots = [(⟨0, 2⟩, ""), (⟨0, 3⟩, ""), (⟨1, 2⟩, ""), (⟨1, 3⟩, "of:=[.B2]"),
    (⟨2, 2⟩, "A1"), (⟨2, 3⟩, "")] := rfl
  constructor
  · rintro (⟨d, hd, hne⟩ | ⟨text, ht, hne⟩)
    · rw [← mem_slots, hv] at hd
      grind
    · rw [← mem_slots, hf] at ht
      grind
  · rintro (rfl | rfl | rfl)
    · exact .inl ⟨.text "Qty", rfl, by simp⟩
    · exact .inr ⟨"A1", rfl, by decide⟩
    · exact .inr ⟨"of:=[.B2]", rfl, by decide⟩

theorem bounds_stock : (Range.mk ⟨1, 1⟩ ⟨2, 3⟩).Bounds (Filled stock sums) := by
  constructor
  · intro p hp
    rcases filled_stock.mp hp with rfl | rfl | rfl <;> decide
  · intro outer ho
    have first := ho ⟨1, 1⟩ (filled_stock.mpr (by simp))
    have second := ho ⟨2, 2⟩ (filled_stock.mpr (by simp))
    have third := ho ⟨1, 3⟩ (filled_stock.mpr (by simp))
    simp only [Range.mem_iff] at first second third
    simp only [Range.Within]
    omega

/-- The empty slots around `C3` neither make a cell nor count for the range. -/
theorem ofGrids_merges_stock :
    (ofGrids "S" stock sums).cells[(⟨2, 2⟩ : Position)]? =
      some ⟨⟨2, 2⟩, some (.boolean true), some "A1"⟩ ∧
    (ofGrids "S" stock sums).cells[(⟨1, 3⟩ : Position)]? = some ⟨⟨1, 3⟩, none, some "B2"⟩ ∧
    (⟨0, 2⟩ : Position) ∉ (ofGrids "S" stock sums).cells ∧
    (ofGrids "S" stock sums).range = some ⟨⟨1, 1⟩, ⟨2, 3⟩⟩ := by
  obtain ⟨stored, holds, unranged, bounds, -⟩ := ofGrids_merges "S" stock sums
  have cell {p : Position} (hp : Filled stock sums p) :
      (ofGrids "S" stock sums).cells[p]? = some ⟨p, stock.value? p, sums.formula? p⟩ := by
    obtain ⟨c, hc⟩ := Option.isSome_iff_exists.mp
      (Std.ExtTreeMap.mem_iff_isSome_getElem?.mp ((stored p).mpr hp))
    rw [hc, holds p c hc]
  refine ⟨?_, ?_, ?_, ?_⟩
  · exact cell (filled_stock.mpr (by simp))
  · rw [cell (filled_stock.mpr (by simp))]
    have hf : sums.formula? ⟨1, 3⟩ = some "B2" := by cbv
    rw [hf]
    rfl
  · rw [stored, filled_stock]
    decide
  · cases hr : (ofGrids "S" stock sums).range with
    | none => exact absurd (filled_stock.mpr (.inl rfl)) (unranged.mp hr ⟨1, 1⟩)
    | some r => rw [(bounds r hr).unique bounds_stock]

end Sheet

end FormulaDigest
