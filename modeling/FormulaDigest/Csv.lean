import FormulaDigest.Extraction

/-!
# The CSV report

One row for each formula under a row of column names, in the manner of RFC 4180: a field that holds
the delimiter, a quote or a line break is put in quotes, and a quote inside it is doubled. Rows end
with a line feed. The delimiter is a byte, so rows are bytes too.
-/
namespace FormulaDigest.Csv

def quote : UInt8 := '"'.toUInt8

def lineFeed : UInt8 := '\n'.toUInt8

def carriageReturn : UInt8 := '\r'.toUInt8

/-- Whether a byte makes the field that holds it a quoted one. -/
def isSpecial (delimiter b : UInt8) : Bool :=
  b = delimiter || b = quote || b = carriageReturn || b = lineFeed

/-- Writes each quote twice. -/
def doubleQuotes (bytes : List UInt8) : List UInt8 :=
  bytes.flatMap fun b => if b = quote then [quote, quote] else [b]

def field (delimiter : UInt8) (bytes : List UInt8) : List UInt8 :=
  if bytes.any (isSpecial delimiter) then quote :: doubleQuotes bytes ++ [quote] else bytes

def row (delimiter : UInt8) (fields : List (List UInt8)) : List UInt8 :=
  List.intercalate [delimiter] (fields.map (field delimiter)) ++ [lineFeed]

/-- The names of the columns. -/
def header : List String := ["Sheet", "Address", "Column", "Formula"]

def fields (r : Record) : List String := [r.sheet, r.address, r.column, r.formula]

def table (records : List Record) : List (List String) :=
  header :: records.map fields

/-- The bytes of a table of texts. -/
def encode (delimiter : UInt8) (rows : List (List String)) : List UInt8 :=
  rows.flatMap fun texts => row delimiter (texts.map fun s => Utf8.encode s.toList)

/-- The report as text. A delimiter outside ASCII may break the encoding, and each broken stretch
becomes a replacement character. -/
def render (delimiter : UInt8) (records : List Record) : String :=
  String.ofList (Utf8.decodeLossy (encode delimiter (table records)))

end FormulaDigest.Csv
