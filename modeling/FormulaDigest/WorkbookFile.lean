import FormulaDigest.Extraction
import FormulaDigest.Grid
import FormulaDigest.Path

/-!
# Workbook files

A workbook as it is stored: its format and, sheet by sheet, what each cell holds. Reading goes
through the sheets in order, values before formulas, and stops at the first thing that cannot be
read.
-/
namespace FormulaDigest

inductive BookFormat
  | xlsx
  | ods
  deriving DecidableEq, Repr

/-- A stored cell. An empty formula is none, and a broken one cannot be read. -/
structure StoredCell where
  position : Position
  datum : Datum := .empty
  formula : String := ""
  brokenFormula : Bool := false

structure StoredSheet where
  name : String
  cells : List StoredCell

structure WorkbookFile where
  format : BookFormat
  sheets : List StoredSheet

inductive ReadError
  | unopened (path : String)
  | values (sheet : String)
  | formulas (sheet : String)
  deriving DecidableEq, Repr

def ReadError.message : ReadError → String
  | .unopened path => "Failed to open workbook: " ++ path
  | .values sheet => "Failed to read values of sheet '" ++ sheet ++ "'"
  | .formulas sheet => "Failed to read formulas of sheet '" ++ sheet ++ "'"

/-- The extensions that bind a file to a format. A file with any other extension is tried. -/
def BookFormat.known : List String := ["xls", "xla", "xlsx", "xlsm", "xlam", "xlsb", "ods"]

def BookFormat.extensions : BookFormat → List String
  | .xlsx => ["xlsx", "xlsm", "xlam"]
  | .ods => ["ods"]

/-- Whether a file of this format is opened under the given path. -/
def BookFormat.opensAs (f : BookFormat) (path : String) : Bool :=
  match Path.extension? path with
  | none => true
  | some extension => f.extensions.contains extension || !known.contains extension

/-- The error codes that a value can be. -/
def errorCodes : List String :=
  ["#DIV/0!", "#N/A", "#NAME?", "#NULL!", "#NUM!", "#REF!", "#VALUE!"]

def Datum.isReadable : Datum → Bool
  | .error code => errorCodes.contains code
  | _ => true

def Datum.isEmpty : Datum → Bool
  | .empty => true
  | _ => false

namespace StoredSheet

/-- The cells that count: of two at one position the later one. -/
def stored (s : StoredSheet) : List StoredCell :=
  let cells : Std.ExtTreeMap Position StoredCell :=
    s.cells.foldl (fun cells c => cells.insert c.position c) ∅
  cells.values

/-- The grid over the cells that hold a value. -/
def values (s : StoredSheet) : Grid Datum :=
  .ofPlaced .empty ((s.stored.filter (!·.datum.isEmpty)).map fun c => (c.position, c.datum))

/-- The grid over the cells that hold a formula. -/
def formulas (s : StoredSheet) : Grid String :=
  .ofPlaced "" ((s.stored.filter (·.formula ≠ "")).map fun c => (c.position, c.formula))

/-- The sheet that is stored, if all its values and formulas can be read. -/
def read (s : StoredSheet) : Except ReadError Sheet :=
  if !s.stored.all (·.datum.isReadable) then .error (.values s.name)
  else if s.stored.any (·.brokenFormula) then .error (.formulas s.name)
  else .ok (Sheet.ofGrids s.name s.values s.formulas)

end StoredSheet

/-- Reads the workbook that is stored under a path. -/
def WorkbookFile.read (path : String) (b : WorkbookFile) : Except ReadError Workbook :=
  if b.format.opensAs path then do
    let sheets ← b.sheets.mapM StoredSheet.read
    pure ⟨path, sheets⟩
  else .error (.unopened path)

end FormulaDigest
