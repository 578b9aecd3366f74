import FormulaDigest.Extraction

/-!
# Consistent sheets

A sheet is accepted exactly if it does not contradict itself: it holds nothing and declares
nothing, or every stored cell lies in a well-formed declared range under its own position.
-/
namespace FormulaDigest.Sheet

/-- What a declared range demands of the stored cells. -/
def Fits (s : Sheet) (r : Range) : Prop :=
  ∀ key c, s.cells[key]? = some c → c.position = key ∧ key ∈ r

/-- A sheet that declares no range stores nothing, and a declared range is well formed and fits. -/
def Consistent (s : Sheet) : Prop :=
  (s.range = none ∧ s.cells = ∅) ∨ ∃ r, s.range = some r ∧ r.WellFormed ∧ s.Fits r

theorem cellFault?_eq_none_iff {r : Range} {key : Position} {c : Cell} :
    cellFault? r key c = none ↔ c.position = key ∧ key ∈ r := by
  unfold cellFault?
  by_cases hp : c.position = key <;> simp [hp]

/-- The cells of a sheet show no fault exactly if the range fits them. -/
theorem findSome?_cellFault?_eq_none_iff {s : Sheet} {r : Range} :
    (s.cells.toList.findSome? fun entry => cellFault? r entry.1 entry.2) = none ↔ s.Fits r := by
  rw [List.findSome?_eq_none_iff]
  constructor
  · intro h key c hc
    exact cellFault?_eq_none_iff.mp
      (h (key, c) (Std.ExtTreeMap.mem_toList_iff_getElem?_eq_some.mpr hc))
  · rintro h ⟨key, c⟩ hc
    exact cellFault?_eq_none_iff.mpr
      (h key c (Std.ExtTreeMap.mem_toList_iff_getElem?_eq_some.mp hc))

theorem fault?_eq_none_iff {s : Sheet} : s.fault? = none ↔ s.Consistent := by
  unfold fault? Consistent
  cases hr : s.range with
  | none => simp
  | some r =>
    by_cases hw : r.WellFormed
    · simp only [if_pos hw, findSome?_cellFault?_eq_none_iff]
      simp [hw]
    · simp [hw]

end FormulaDigest.Sheet
