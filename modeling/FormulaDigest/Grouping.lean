import FormulaDigest.Extraction

/-!
# Grouping by sheet

Records by sheet name. A group is opened where the first record of its sheet is seen, and later
records of the sheet are appended to it.
-/
namespace FormulaDigest

structure Group where
  sheet : String
  records : List Record
  deriving DecidableEq, Repr

structure Grouped where
  groups : List Group
  deriving DecidableEq, Repr

namespace Grouped

/-- Appends a record to the group of its sheet, which is opened at the end if there is none. -/
def insertRecord (record : Record) : List Group → List Group
  | [] => [⟨record.sheet, [record]⟩]
  | g :: groups =>
    if g.sheet = record.sheet then ⟨g.sheet, g.records ++ [record]⟩ :: groups
    else g :: insertRecord record groups

def ofRecords (records : List Record) : Grouped :=
  ⟨records.foldl (fun groups record => insertRecord record groups) []⟩

def sheetNames (g : Grouped) : List String := g.groups.map Group.sheet

def get? (g : Grouped) (sheet : String) : Option (List Record) :=
  (g.groups.find? (·.sheet = sheet)).map Group.records

def sheetCount (g : Grouped) : Nat := g.groups.length

def recordCount (g : Grouped) : Nat :=
  g.groups.foldl (fun n group => n + group.records.length) 0

def isEmpty (g : Grouped) : Bool := g.groups.isEmpty

/-- All records, group by group. -/
def records (g : Grouped) : List Record := g.groups.flatMap Group.records

theorem ofRecords_concat (records : List Record) (r : Record) :
    (ofRecords (records ++ [r])).groups = insertRecord r (ofRecords records).groups := by
  simp [ofRecords]

end Grouped

end FormulaDigest
