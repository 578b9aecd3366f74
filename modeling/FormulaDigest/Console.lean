import FormulaDigest.Delivery

/-!
# Console messages

What the program says about each file on standard error, and its help.
-/
namespace FormulaDigest

/-- The lines about a delivered outcome: what was found, sheet by sheet. -/
def Outcome.summary (file : String) : Outcome → String
  | .empty => "No formulas found in " ++ file ++ "\n"
  | .report r =>
    let grouped := r.grouped
    let sheets := grouped.groups.map fun g =>
      "  " ++ g.sheet ++ " " ++ g.records.length.repr ++ "\n"
    "✓ " ++ file ++ ": " ++ grouped.recordCount.repr ++ " formulas in " ++
      grouped.sheetCount.repr ++ " sheets\n" ++ String.join sheets

/-- The message about one file. Failures are told even when summaries are not wanted. -/
def Receipt.message {ε : Type} (describe : ε → String) (quiet : Bool) (r : Receipt ε) : String :=
  match r.result with
  | .ok outcome => if quiet then "" else outcome.summary r.file
  | .error e => "ERROR " ++ r.file ++ ": " ++ e.message describe ++ "\n"

namespace Usage

def versionText : String := "sheetdoc 0.2.0\n"

/-- The short help, with one line for each option. -/
def shortHelp : String :=
  String.join (List.map (· ++ "\n") [
    "Document the formulas of Excel/ODS workbooks with readable column names",
    "",
    "Usage: sheetdoc [OPTIONS] <FILE>...",
    "",
    "Arguments:",
    "  <FILE>...  Paths to the Excel/ODS files to document",
    "",
    "Options:",
    "  -c, --config <CONFIG>   Path to configuration file (TOML)",
    "  -f, --format <FORMAT>   Output format [default: markdown] " ++
      "[possible values: markdown, csv, json]",
    "  -o, --output-dir <DIR>  Write one report per input into this directory instead of stdout",
    "  -q, --quiet             Do not print the per-file summary",
    "  -h, --help              Print help (see more with '--help')",
    "  -V, --version           Print version"])

/-- The long help, which also explains the report formats. -/
def longHelp : String :=
  String.join (List.map (· ++ "\n") [
    "Document the formulas of Excel/ODS workbooks with readable column names",
    "",
    "Usage: sheetdoc [OPTIONS] <FILE>...",
    "",
    "Arguments:",
    "  <FILE>...",
    "          Paths to the Excel/ODS files to document",
    "",
    "Options:",
    "  -c, --config <CONFIG>",
    "          Path to configuration file (TOML)",
    "",
    "  -f, --format <FORMAT>",
    "          Output format",
    "",
    "          Possible values:",
    "          - markdown: Markdown document grouped by sheet",
    "          - csv:      One CSV row per formula",
    "          - json:     JSON document grouped by sheet",
    "          ",
    "          [default: markdown]",
    "",
    "  -o, --output-dir <DIR>",
    "          Write one report per input into this directory instead of stdout",
    "",
    "  -q, --quiet",
    "          Do not print the per-file summary",
    "",
    "  -h, --help",
    "          Print help (see a summary with '-h')",
    "",
    "  -V, --version",
    "          Print version"])

/-- What is said about a command line that is refused. -/
def message : Usage → String
  | .missingFile => "error: no file was given\n"
  | .invalidValue => "error: a value is missing or not allowed\n"
  | .repeated => "error: an option was given more than once\n"
  | .unknown => "error: unknown option\n"
  | .unexpectedValue => "error: an option takes no value\n"
  | .help true => longHelp
  | .help false => shortHelp
  | .version => versionText

end Usage

end FormulaDigest
