import FormulaDigest.Config
import FormulaDigest.Substitution

/-!
# Extraction of formulas

The formula cells of a sheet, row by row, as records. A sheet that contradicts itself is refused,
and so is a workbook in which a sheet name returns; one refusal abandons the whole extraction.
-/
namespace FormulaDigest

structure Workbook where
  path : String
  sheets : List Sheet

def Workbook.names (w : Workbook) : List String := w.sheets.map Sheet.name

/-- One formula with its place, the header of its column and its readable text. -/
structure Record where
  sheet : String
  address : String
  column : String
  formula : String
  deriving DecidableEq, Repr

/-- How a sheet contradicts itself or the workbook around it. -/
inductive Fault
  | noRange
  | inverted (range : Range)
  | misplaced (key position : Position)
  | outside (key : Position)
  | repeatedName
  deriving DecidableEq, Repr

def Fault.reason : Fault → String
  | .noRange => "sheet has cells but no declared range"
  | .inverted r => "declared range " ++ r.first.a1 ++ ":" ++ r.last.a1 ++ " is inverted"
  | .misplaced key position =>
    "cell stored at " ++ key.a1 ++ " reports position " ++ position.a1
  | .outside key => "cell " ++ key.a1 ++ " lies outside the declared range"
  | .repeatedName => "sheet name appears more than once in the workbook"

structure Malformed where
  sheet : String
  fault : Fault
  deriving DecidableEq, Repr

def Malformed.message (e : Malformed) : String :=
  "Malformed input in sheet '" ++ e.sheet ++ "': " ++ e.fault.reason

namespace Sheet

/-- What is wrong with one stored cell: its key is not its position, or lies outside the range. -/
def cellFault? (r : Range) (key : Position) (c : Cell) : Option Fault :=
  if c.position ≠ key then some (.misplaced key c.position)
  else if key ∉ r then some (.outside key)
  else none

/-- The first fault of a sheet: a missing range before an inverted one, and both before the cells
in the order of their keys. -/
def fault? (s : Sheet) : Option Fault :=
  match s.range with
  | none => if s.cells.isEmpty then none else some .noRange
  | some r =>
    if r.WellFormed then s.cells.toList.findSome? fun entry => cellFault? r entry.1 entry.2
    else some (.inverted r)

/-- The record of the formula stored at a position, if there is one. -/
def recordAt? (s : Sheet) (h : Headers) (substitute : String → Headers → String) (p : Position) :
    Option Record := do
  let c ← s.cell? p
  let formula ← c.formula
  pure ⟨s.name, p.a1, (h.get? p.column).getD "", substitute formula h⟩

/-- The records of a rectangle, row by row. -/
def recordsIn (s : Sheet) (h : Headers) (substitute : String → Headers → String) (r : Range) :
    List Record :=
  r.rows.toList.flatMap fun row =>
    r.columns.toList.filterMap fun column => s.recordAt? h substitute ⟨row, column⟩

/-- The formulas of a sheet under given headers and a given way to make them readable. -/
def extract (s : Sheet) (h : Headers) (substitute : String → Headers → String) :
    Except Malformed (List Record) :=
  match s.fault?, s.range with
  | some fault, _ => .error ⟨s.name, fault⟩
  | none, none => .ok []
  | none, some r => .ok (s.recordsIn h substitute r)

/-- The formulas of a sheet under its own headers. -/
def records (s : Sheet) : Except Malformed (List Record) :=
  s.extract (Headers.resolve s) fun formula h => h.substitute formula

end Sheet

namespace Workbook

/-- Extracts sheet after sheet. A repeated name is refused even where the sheet would be skipped,
and a skipped sheet is not looked at. -/
def extractSheets (config : Config) (seen : List String) :
    List Sheet → Except Malformed (List Record)
  | [] => .ok []
  | s :: sheets =>
    if s.name ∈ seen then .error ⟨s.name, .repeatedName⟩
    else if config.isSkipped s.name then extractSheets config (s.name :: seen) sheets
    else do
      let records ← s.records
      let others ← extractSheets config (s.name :: seen) sheets
      pure (records ++ others)

/-- The formulas of all sheets that are not left out, in workbook order. -/
def extract (w : Workbook) (config : Config) : Except Malformed (List Record) :=
  extractSheets config [] w.sheets

end Workbook

end FormulaDigest
