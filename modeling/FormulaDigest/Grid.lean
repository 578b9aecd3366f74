import FormulaDigest.OpenFormula
import FormulaDigest.Sheet

/-!
# Grids

A stored sheet comes as two grids, one of values and one of formulas, each with its own origin and
extent. Merging them gives a cell wherever one of the two holds something; empty slots leave no
trace.
-/
namespace FormulaDigest

/-- Rows of slots, counted from an origin. -/
structure Grid (α : Type) where
  origin : Position
  rows : List (List α)

namespace Grid

/-- Every slot with its absolute position, row by row. -/
def slots {α : Type} (g : Grid α) : List (Position × α) :=
  (g.rows.zipIdx g.origin.row).flatMap fun row =>
    (row.1.zipIdx g.origin.column).map fun slot => (⟨row.2, slot.2⟩, slot.1)

/-- The grid over the smallest range that covers some placed slots, filled up with blanks. Of two
slots at one position the later one counts. -/
def ofPlaced {α : Type} (blank : α) (placed : List (Position × α)) : Grid α :=
  match placed with
  | [] => ⟨⟨0, 0⟩, []⟩
  | (first, _) :: _ =>
    let range := placed.foldl (fun (r : Range) slot => r.cover slot.1) (.single first)
    let stored : Std.ExtTreeMap Position α :=
      placed.foldl (fun stored slot => stored.insert slot.1 slot.2) ∅
    ⟨range.first, range.rows.toList.map fun row =>
      range.columns.toList.map fun column => stored[Position.mk row column]?.getD blank⟩

end Grid

/-- What a slot of a value grid holds. Dates are serial numbers or texts. -/
inductive Datum
  | empty
  | integer (n : Int)
  | number (x : Float)
  | text (s : String)
  | boolean (b : Bool)
  | error (code : String)
  | serialDate (x : Float)
  | isoDate (s : String)
  | isoDuration (s : String)
  deriving Repr

/-- The value of a cell that holds a datum. -/
def Datum.value? : Datum → Option Value
  | .empty => none
  | .integer n => some (.number (Float.ofInt n))
  | .number x => some (.number x)
  | .text s => some (.text s)
  | .boolean b => some (.boolean b)
  | .error code => some (.error code)
  | .serialDate x => some (.number x)
  | .isoDate s => some (.text s)
  | .isoDuration s => some (.text s)

namespace Sheet

/-- Inserts the value of one slot, if there is one. -/
def addDatum (s : Sheet) (slot : Position × Datum) : Sheet :=
  match slot.2.value? with
  | some v => s.insert ⟨slot.1, some v, none⟩
  | none => s

/-- Sets the formula of one slot, if it is not empty, in A1 notation. -/
def addFormula (s : Sheet) (slot : Position × String) : Sheet :=
  if slot.2 = "" then s else s.setFormula slot.1 (OpenFormula.normalize slot.2)

/-- Merges the grids of a sheet: values first, then formulas. -/
def ofGrids (name : String) (values : Grid Datum) (formulas : Grid String) : Sheet :=
  formulas.slots.foldl addFormula (values.slots.foldl addDatum (empty name))

end Sheet

end FormulaDigest
