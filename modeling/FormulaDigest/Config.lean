import Std.Data.ExtTreeMap
import FormulaDigest.Utf8

/-!
# Configuration

What a user can set: the title and the label of the Markdown report, the delimiter of the CSV
report, and the sheets to leave out.
-/
namespace FormulaDigest

structure Config where
  title : String := "Formula Report"
  label : String := "**Formula**"
  delimiter : String := ","
  /-- By sheet name, whether the sheet is left out. -/
  skips : Std.ExtTreeMap String Bool := ∅

/-- Why a configuration cannot be used. -/
inductive ConfigError
  | wideDelimiter (delimiter : String)
  | reservedDelimiter
  | brokenTitle
  deriving DecidableEq, Repr

def ConfigError.message : ConfigError → String
  | .wideDelimiter d =>
    "Configuration error: delimiter must be a single ASCII character, got '" ++ d ++ "'"
  | .reservedDelimiter => "Configuration error: delimiter cannot be a quote or line break"
  | .brokenTitle => "Configuration error: title must be a single line"

namespace Config

def isSkipped (c : Config) (sheet : String) : Bool :=
  c.skips[sheet]?.getD false

/-- Sets whether a sheet is left out. -/
def setSkip (c : Config) (sheet : String) (skip : Bool) : Config :=
  { c with skips := c.skips.insert sheet skip }

/-- The delimiter as a byte: a single ASCII character other than a quote or a line break. -/
def delimiterByte (c : Config) : Except ConfigError UInt8 :=
  match Utf8.encode c.delimiter.toList with
  | [byte] =>
    if byte = '"'.toUInt8 ∨ byte = '\n'.toUInt8 ∨ byte = '\r'.toUInt8 then
      .error .reservedDelimiter
    else .ok byte
  | _ => .error (.wideDelimiter c.delimiter)

/-- Checks the delimiter and then that the title is a single line. -/
def validate (c : Config) : Except ConfigError Unit := do
  let _ ← c.delimiterByte
  if '\n' ∈ c.title.toList then .error .brokenTitle else .ok ()

/-- The configured names that are no sheet of the workbook, in order. -/
def unknownSheets (c : Config) (sheets : List String) : List String :=
  c.skips.keys.filter (· ∉ sheets)

end Config

end FormulaDigest
