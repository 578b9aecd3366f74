import Std.Data.ExtTreeMap
import FormulaDigest.Cell
import FormulaDigest.Range

/-!
# Sheets

A sheet stores cells under positions and declares the range that they occupy. Inserting keeps both
in step; storing under a key and declaring a range do not, so a sheet may contradict itself.
-/
namespace FormulaDigest

structure Sheet where
  name : String
  cells : Std.ExtTreeMap Position Cell
  range : Option Range

namespace Sheet

def empty (name : String) : Sheet := ⟨name, ∅, none⟩

def cell? (s : Sheet) (p : Position) : Option Cell := s.cells[p]?

/-- Stores a cell at its own position and grows the range to cover it. -/
def insert (s : Sheet) (c : Cell) : Sheet :=
  { s with
    cells := s.cells.insert c.position c
    range := some (match s.range with
      | none => .single c.position
      | some r => r.cover c.position) }

/-- Stores a cell under any key and leaves the range alone. -/
def put (s : Sheet) (key : Position) (c : Cell) : Sheet :=
  { s with cells := s.cells.insert key c }

/-- Drops what is stored under a key and leaves the range alone. -/
def remove (s : Sheet) (key : Position) : Sheet :=
  { s with cells := s.cells.erase key }

def declare (s : Sheet) (r : Option Range) : Sheet :=
  { s with range := r }

/-- Gives the cell stored at a position a formula, or inserts a cell that holds nothing else. -/
def setFormula (s : Sheet) (p : Position) (formula : String) : Sheet :=
  match s.cells[p]? with
  | some c => s.put p { c with formula := some formula }
  | none => s.insert ⟨p, none, some formula⟩

/-- The stored cells that carry a formula, in the order of their keys. -/
def formulaCells (s : Sheet) : List Cell :=
  s.cells.values.filter Cell.hasFormula

theorem cells_insert (s : Sheet) (c : Cell) (p : Position) :
    (s.insert c).cells[p]? = if c.position = p then some c else s.cells[p]? := by
  simp [insert, Std.ExtTreeMap.getElem?_insert]

theorem cells_put (s : Sheet) (key p : Position) (c : Cell) :
    (s.put key c).cells[p]? = if key = p then some c else s.cells[p]? := by
  simp [put, Std.ExtTreeMap.getElem?_insert]

theorem cells_remove (s : Sheet) (key p : Position) :
    (s.remove key).cells[p]? = if key = p then none else s.cells[p]? := by
  simp [remove, Std.ExtTreeMap.getElem?_erase]

end Sheet

end FormulaDigest
