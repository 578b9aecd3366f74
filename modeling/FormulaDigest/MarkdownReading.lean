import FormulaDigest.Markdown
import FormulaDigest.OpenFormula

/-!
# Reading a Markdown report

The layout of a report as a reader of its lines sees it: the title, then for each sheet a heading
and its entries, numbered from one. A formula ends at the first line that is nothing but a fence,
and the address of an entry stands behind the last parenthesis that opens in its heading.
-/
namespace FormulaDigest.Markdown

abbrev Line := List Char

def lines (text : String) : List Line := text.toList.splitOn '\n'

def opening : Line := "```excel".toList

def fence : Line := "```".toList

def rule : Line := "---".toList

/-- The text behind a marker at the start of a line. -/
def behind? (marker : String) (line : Line) : Option Line :=
  if marker.toList.isPrefixOf line then some (line.drop marker.length) else none

/-- What stands before the column in the heading of an entry. -/
def entryMarker (number : Nat) : String := "### " ++ number.repr ++ ". "

/-- The column and the address in the heading of the entry with a given number. -/
def caption? (number : Nat) (line : Line) : Option (String × String) := do
  let caption ← behind? (entryMarker number) line
  let (front, back) ← OpenFormula.splitLast? '(' caption
  guard (front.getLast? = some ' ' ∧ back.getLast? = some ')')
  pure (String.ofList front.dropLast, String.ofList back.dropLast)

/-- Reads the entry with a given number, and gives back the lines behind it. -/
def entry? (label sheet : String) (number : Nat) : List Line → Option (Record × List Line)
  | heading :: [] :: second :: [] :: third :: body => do
    guard (second = label.toList ∧ third = opening)
    let (column, address) ← caption? number heading
    match body.dropWhile (· ≠ fence) with
    | _ :: [] :: last :: [] :: rest => do
      guard (last = rule)
      let formula := ['\n'].intercalate (body.takeWhile (· ≠ fence))
      pure (⟨sheet, address, column, String.ofList formula⟩, rest)
    | _ => none
  | _ => none

/-- Whether the next line is the heading of an entry. -/
def atEntry : List Line → Bool
  | [] => false
  | line :: _ => "### ".toList.isPrefixOf line

/-- Reads the entries of a sheet from a given number on. The first argument bounds how many. -/
def entries? (label sheet : String) : Nat → Nat → List Line → Option (List Record × List Line)
  | 0, _, _ => none
  | fuel + 1, number, lines =>
    if atEntry lines then do
      let (r, rest) ← entry? label sheet number lines
      let (records, rest) ← entries? label sheet fuel (number + 1) rest
      pure (r :: records, rest)
    else some ([], lines)

/-- Reads the sheets of a report. The first argument bounds how many. -/
def sections? (label : String) : Nat → List Line → Option (List Group)
  | 0, _ => none
  | _ + 1, [] => some []
  | fuel + 1, heading :: [] :: lines => do
    let sheet ← behind? "## " heading
    let (records, rest) ← entries? label (String.ofList sheet) (lines.length + 1) 1 lines
    let groups ← sections? label fuel rest
    pure (⟨String.ofList sheet, records⟩ :: groups)
  | _ + 1, _ => none

/-- The title and the groups of a report whose entries have a given label. -/
def read? (label text : String) : Option (String × Grouped) :=
  match lines text with
  | heading :: [] :: rest => do
    let title ← behind? "# " heading
    let groups ← sections? label (rest.length + 1) rest
    pure (String.ofList title, ⟨groups⟩)
  | _ => none

end FormulaDigest.Markdown
