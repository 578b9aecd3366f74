import FormulaDigest.Config
import FormulaDigest.TomlReading

/-!
# The configuration file

A TOML document with a table `global` for the settings of the whole report and a table `sheets` with
one table for each sheet. Either form of a record is taken, a table or an array of its values in
order; what is missing has its default and what is unknown is ignored. A date is a table without
any known name.
-/
namespace FormulaDigest

/-- Why no configuration can be read from a file. -/
inductive ConfigFileError
  | unreadable
  | notToml
  deriving DecidableEq, Repr

namespace Config

/-- A text setting: the default when it is missing, nothing when it is no text. -/
def textOr? (default : String) : Option Toml → Option String
  | none => some default
  | some (.string s) => some s
  | some _ => none

def flagOr? (default : Bool) : Option Toml → Option Bool
  | none => some default
  | some (.boolean b) => some b
  | some _ => none

/-- The fields of a record, by their names in a table or by their order in an array. -/
def fields? (names : List String) : Toml → Option (List (Option Toml))
  | .table entries => some (names.map (Toml.entry? entries))
  | .array items => some (names.zipIdx.map fun name => items[name.2]?)
  | .dateTime => some (names.map fun _ => none)
  | _ => none

/-- The settings of the whole report, over the defaults. -/
def withGlobal? (c : Config) (v : Toml) : Option Config := do
  match ← fields? ["title", "formula_label", "delimiter"] v with
  | [title, label, delimiter] =>
    pure { c with
      title := ← textOr? c.title title
      label := ← textOr? c.label label
      delimiter := ← textOr? c.delimiter delimiter }
  | _ => none

/-- The settings of one sheet. -/
def withSheet? (c : Config) (name : String) (v : Toml) : Option Config := do
  match ← fields? ["skip"] v with
  | [skip] => pure (c.setSkip name (← flagOr? false skip))
  | _ => none

def withSheets? (c : Config) : Toml → Option Config
  | .table entries => entries.foldlM (fun c entry => c.withSheet? entry.1 entry.2) c
  | _ => none

/-- Reads a configuration from the text of a file. -/
def ofText (text : String) : Except ConfigFileError Config :=
  let read : Option Config := do
    let entries ← Toml.parse? text
    let c ← match Toml.entry? entries "global" with
      | some v => withGlobal? {} v
      | none => pure {}
    match Toml.entry? entries "sheets" with
    | some v => c.withSheets? v
    | none => pure c
  match read with
  | some c => .ok c
  | none => .error .notToml

/-- Reads a configuration from the bytes of a file, if there is one. -/
def ofFile (content : Option ByteArray) : Except ConfigFileError Config :=
  match content.bind String.fromUTF8? with
  | some text => ofText text
  | none => .error .unreadable

end Config

end FormulaDigest
