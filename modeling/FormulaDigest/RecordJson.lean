import FormulaDigest.JsonReading
import FormulaDigest.Report

/-!
# Records and reports as JSON

A record is an object with four texts. The report of a file names the file, lists the formulas by
sheet and gives their number; its names stand in alphabetical order.
-/
namespace FormulaDigest

namespace Record

/-- The compact form of a record. -/
def toJson (r : Record) : Json :=
  .record [("sheet", .text r.sheet), ("address", .text r.address), ("column", .text r.column),
    ("formula", .text r.formula)]

/-- The value of the only member with a given name, if that is a text. -/
def uniqueText? (members : List (Option String × Json)) (name : String) : Option String :=
  match members.filter (·.1 = some name) with
  | [(_, v)] => v.content?
  | _ => none

/-- Reads a record: an object that has each of the four names once, among any others that are
texts, or an array of exactly four texts. -/
def ofJson? : Json → Option Record
  | .object members => do
    guard (members.all (·.1.isSome))
    let sheet ← uniqueText? members "sheet"
    let address ← uniqueText? members "address"
    let column ← uniqueText? members "column"
    let formula ← uniqueText? members "formula"
    pure ⟨sheet, address, column, formula⟩
  | .array [sheet, address, column, formula] => do
    pure ⟨← sheet.content?, ← address.content?, ← column.content?, ← formula.content?⟩
  | _ => none

def parseJson? (text : String) : Option Record := do
  ofJson? (← Json.parse? text)

end Record

namespace Report

/-- A record inside a report. -/
def recordJson (r : Record) : Json :=
  .record [("address", .text r.address), ("column", .text r.column), ("formula", .text r.formula),
    ("sheet", .text r.sheet)]

def groupJson (g : Group) : Json :=
  .record [("formulas", .array (g.records.map recordJson)), ("name", .text g.sheet)]

def toJson (r : Report) (file : String) : Json :=
  .record [("file", .text file), ("sheets", .array (r.grouped.groups.map groupJson)),
    ("total", .natural r.records.length)]

/-- The JSON document of a report, which ends its last line. -/
def json (r : Report) (file : String) : String :=
  String.ofList ((r.toJson file).pretty 0 ++ ['\n'])

end Report

end FormulaDigest
