import FormulaDigest.Csv
import FormulaDigest.Markdown

/-!
# Reports

The outcome of a workbook: a report of its formulas, or nothing to report.
-/
namespace FormulaDigest

/-- At least one formula, in the order of extraction. -/
structure Report where
  records : List Record
  nonempty : records ≠ []

inductive Outcome
  | empty
  | report (r : Report)

namespace Report

def grouped (r : Report) : Grouped := Grouped.ofRecords r.records

def markdown (r : Report) (config : Config) : String :=
  Markdown.render r.grouped config.title config.label

/-- The CSV form, if the configured delimiter can be used. -/
def csv (r : Report) (config : Config) : Except ConfigError String := do
  let delimiter ← config.delimiterByte
  pure (Csv.render delimiter r.records)

end Report

def Outcome.ofRecords (records : List Record) : Outcome :=
  if h : records = [] then .empty else .report ⟨records, h⟩

/-- The report of a workbook, unless a sheet of it is malformed. -/
def Workbook.report (w : Workbook) (config : Config) : Except Malformed Outcome :=
  (w.extract config).map Outcome.ofRecords

end FormulaDigest
