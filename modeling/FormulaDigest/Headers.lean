import FormulaDigest.Sheet

/-!
# Column headers

The display names of a sheet's columns come from its first row, wherever the declared range
starts. A name is one trimmed line; a column without a header value gets a placeholder.
-/
namespace FormulaDigest

/-- Display names by column. -/
structure Headers where
  names : Std.ExtTreeMap Nat String

namespace Headers

def empty : Headers := ⟨∅⟩

/-- Of two entries for one column the later one counts. -/
def ofList (entries : List (Nat × String)) : Headers :=
  ⟨entries.foldl (fun names entry => names.insert entry.1 entry.2) ∅⟩

def get? (h : Headers) (column : Nat) : Option String := h.names[column]?

def size (h : Headers) : Nat := h.names.size

def isEmpty (h : Headers) : Bool := h.names.isEmpty

/-- The entries in the order of the columns. -/
def toList (h : Headers) : List (Nat × String) := h.names.toList

/-- Joins the lines of a text with spaces and trims the result. -/
def singleLine (text : String) : String :=
  String.ofList (Blank.trim (text.toList.map fun c => if c = '\n' then ' ' else c))

def placeholder (column : Nat) : String := "Col_" ++ column.repr

/-- The name of a column: the value in the first row as a single line, even when that is empty. -/
def columnName (s : Sheet) (column : Nat) : String :=
  match (s.cell? ⟨0, column⟩).bind Cell.value with
  | some value => singleLine value.display
  | none => placeholder column

/-- The names of every column of the declared range. -/
def resolve (s : Sheet) : Headers :=
  match s.range with
  | none => empty
  | some r => ofList (r.columns.toList.map fun column => (column, columnName s column))

end Headers

end FormulaDigest
