import FormulaDigest.Grouping

/-!
# The Markdown report

A title, a heading for each sheet and a numbered entry for each formula. Every block ends its last
line, and one blank line stands between two blocks.
-/
namespace FormulaDigest.Markdown

/-- The blocks of one formula, the `number`th of its sheet. -/
def entry (label : String) (number : Nat) (r : Record) : List String :=
  ["### " ++ number.repr ++ ". " ++ r.column ++ " (" ++ r.address ++ ")\n",
    label ++ "\n",
    "```excel\n" ++ r.formula ++ "\n```\n",
    "---\n"]

def sheetSection (label : String) (g : Group) : List String :=
  ("## " ++ g.sheet ++ "\n") ::
    (g.records.zipIdx 1).flatMap fun numbered => entry label numbered.2 numbered.1

def blocks (report : Grouped) (title label : String) : List String :=
  ("# " ++ title ++ "\n") :: report.groups.flatMap (sheetSection label)

def render (report : Grouped) (title label : String) : String :=
  String.intercalate "\n" (blocks report title label)

end FormulaDigest.Markdown
