import FormulaDigest.DecimalReading
import FormulaDigest.FileTree
import FormulaDigest.JsonReading

/-!
# Workbooks on disk

A workbook lies on disk as a JSON object with its kind and its sheets. A sheet has a name and
cells, and a cell has a row `r`, a column `c` and, where present, a value `v` and a formula `f`. A
value is an object with one member, named for what the value is. Any other file is plain bytes.
-/
namespace FormulaDigest

def BookFormat.ofName? (name : String) : Option BookFormat :=
  if name = "xlsx" then some .xlsx else if name = "ods" then some .ods else none

namespace Json

def natural? : Json → Option Nat
  | .number numeral => numeral.toNat?
  | _ => none

/-- The text of a member. An absent one is empty. -/
def textMember? (name : String) (v : Json) : Option String :=
  match v.member? name with
  | some member => member.content?
  | none => some ""

end Json

/-- The number in a text under the name of a number, a text under the name of a text, and so on. -/
def Datum.ofMember? (name : String) (v : Json) : Option Datum :=
  if name = "bool" then
    match v with
    | .boolean b => some (.boolean b)
    | _ => none
  else do
    let s ← v.content?
    if name = "num" then (DecimalReading.read? s).map .number
    else if name = "date" then (DecimalReading.read? s).map .serialDate
    else if name = "text" then pure (.text s)
    else if name = "err" then pure (.error s)
    else if name = "iso_date" then pure (.isoDate s)
    else if name = "iso_duration" then pure (.isoDuration s)
    else none

def Datum.ofJson? : Json → Option Datum
  | .null => some .empty
  | .object [(some name, v)] => ofMember? name v
  | _ => none

def StoredCell.ofJson? (v : Json) : Option StoredCell := do
  let row ← (v.member? "r").bind Json.natural?
  let column ← (v.member? "c").bind Json.natural?
  let datum ← Datum.ofJson? ((v.member? "v").getD .null)
  let formula ← v.textMember? "f"
  pure { position := ⟨row, column⟩, datum, formula }

def StoredSheet.ofJson? (v : Json) : Option StoredSheet := do
  let name ← (v.member? "name").bind Json.content?
  let cells ← (v.member? "cells").bind Json.items?
  pure ⟨name, ← cells.mapM StoredCell.ofJson?⟩

def WorkbookFile.ofJson? (v : Json) : Option WorkbookFile := do
  let kind ← (v.member? "kind").bind Json.content?
  let sheets ← (v.member? "sheets").bind Json.items?
  pure ⟨← BookFormat.ofName? kind, ← sheets.mapM StoredSheet.ofJson?⟩

/-- What a file with the given bytes holds. -/
def Content.ofBytes (bytes : ByteArray) : Content :=
  let book : Option WorkbookFile := do
    WorkbookFile.ofJson? (← Json.parse? (← String.fromUTF8? bytes))
  match book with
  | some book => .workbook book
  | none => .plain bytes

end FormulaDigest
