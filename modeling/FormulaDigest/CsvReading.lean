import FormulaDigest.Csv

/-!
# Reading CSV

A reader of RFC 4180 that goes over the bytes once. A field that starts with a quote ends at the
next quote that is not doubled; any other field ends at a delimiter or a line feed and holds neither
quotes nor carriage returns. A line feed outside quotes ends a row.
-/
namespace FormulaDigest.Csv

/-- Where a reader stands in a field. Behind a quote in a quoted field it is open whether the field
has ended there. -/
inductive Place
  | start
  | bare
  | quoted
  | closed
  deriving DecidableEq, Repr

/-- The rows read so far, the fields of the row under way and the bytes of the field under way. -/
structure Reader where
  rows : List (List (List UInt8))
  fields : List (List UInt8)
  bytes : List UInt8
  place : Place

namespace Reader

/-- A reader at the beginning of a row. -/
def startRow (rows : List (List (List UInt8))) : Reader := ⟨rows, [], [], .start⟩

def take (r : Reader) (b : UInt8) (place : Place) : Reader :=
  { r with bytes := r.bytes ++ [b], place }

def endField (r : Reader) : Reader := ⟨r.rows, r.fields ++ [r.bytes], [], .start⟩

def endRow (r : Reader) : Reader := startRow (r.rows ++ [r.fields ++ [r.bytes]])

/-- Reads a byte that ends a field. -/
def separate? (delimiter : UInt8) (r : Reader) (b : UInt8) : Option Reader :=
  if b = delimiter then some r.endField
  else if b = lineFeed then some r.endRow
  else none

/-- Reads a byte outside quotes. -/
def stepBare? (delimiter : UInt8) (r : Reader) (b : UInt8) : Option Reader :=
  if b = delimiter ∨ b = lineFeed then separate? delimiter r b
  else if b = quote ∨ b = carriageReturn then none
  else some (r.take b .bare)

def step? (delimiter : UInt8) (r : Reader) (b : UInt8) : Option Reader :=
  match r.place with
  | .start => if b = quote then some { r with place := .quoted } else stepBare? delimiter r b
  | .bare => stepBare? delimiter r b
  | .quoted => some (if b = quote then { r with place := .closed } else r.take b .quoted)
  | .closed => if b = quote then some (r.take b .quoted) else separate? delimiter r b

def run? (delimiter : UInt8) (r : Reader) (bytes : List UInt8) : Option Reader :=
  bytes.foldlM (step? delimiter) r

/-- All rows at the end of the bytes. The last row need not end with a line feed, but its quotes
have to be closed. -/
def finish? (r : Reader) : Option (List (List (List UInt8))) :=
  match r.place with
  | .quoted => none
  | .start => some (if r.fields = [] then r.rows else r.endRow.rows)
  | _ => some r.endRow.rows

end Reader

/-- The rows of fields that bytes spell, if they are CSV under a delimiter. -/
def read? (delimiter : UInt8) (bytes : List UInt8) : Option (List (List (List UInt8))) :=
  ((Reader.startRow []).run? delimiter bytes).bind Reader.finish?

end FormulaDigest.Csv
