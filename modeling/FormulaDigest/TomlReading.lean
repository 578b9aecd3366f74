import FormulaDigest.TomlNumber
import FormulaDigest.TomlText

/-!
# Reading TOML

A document is read line by line: blank lines, comments, headers and values under keys.
-/
namespace FormulaDigest

namespace TomlReading

open TomlText

/-- What stands on the left of an equals sign, and the text on its right. -/
def assigned? (cs : List Char) : Option (List String × String × List Char) := do
  let (path, key, rest) ← key? cs
  match rest with
  | '=' :: rest => pure (path, key, skipSpace rest)
  | _ => none

mutual

/-- A value and the text behind it. The second argument counts the arrays and tables around it. -/
def value? : Nat → Nat → List Char → Option (Toml × List Char)
  | 0, _, _ => none
  | fuel + 1, depth, cs =>
    match cs with
    | 't' :: 'r' :: 'u' :: 'e' :: rest => some (.boolean true, rest)
    | 'f' :: 'a' :: 'l' :: 's' :: 'e' :: rest => some (.boolean false, rest)
    | '[' :: rest => do
      guard (depth + 1 < maxDepth)
      let (items, rest) ← items? fuel (depth + 1) rest
      pure (.array items, rest)
    | '{' :: rest => do
      guard (depth + 1 < maxDepth)
      let (entries, rest) ← match skipSpace rest with
        | '}' :: rest => some (Toml.Table.opened, rest)
        | rest => entries? fuel (depth + 1) Toml.Table.opened rest
      pure (.table (Toml.Table.draftEntries entries), rest)
    | '"' :: _ => (string? cs).map fun s => (.string (String.ofList s.1), s.2)
    | '\x27' :: _ => (string? cs).map fun s => (.string (String.ofList s.1), s.2)
    | cs => TomlNumber.value? cs

/-- The items of an array up to its closing bracket. A comma may stand behind the last one. -/
def items? : Nat → Nat → List Char → Option (List Toml × List Char)
  | 0, _, _ => none
  | fuel + 1, depth, cs =>
    match skipLines false cs with
    | ']' :: rest => some ([], rest)
    | cs => do
      let (v, rest) ← value? fuel depth cs
      match skipLines false rest with
      | ',' :: rest =>
        let (vs, rest) ← items? fuel depth rest
        pure (v :: vs, rest)
      | ']' :: rest => pure ([v], rest)
      | _ => none

/-- The entries of a table on one line, added to those before them, up to its closing brace. -/
def entries? : Nat → Nat → Toml.Table → List Char → Option (Toml.Table × List Char)
  | 0, _, _, _ => none
  | fuel + 1, depth, table, cs => do
    let (path, key, rest) ← assigned? cs
    let (v, rest) ← value? fuel depth rest
    let table ← table.add path key v
    match skipSpace rest with
    | ',' :: rest => entries? fuel depth table rest
    | '}' :: rest => pure (table, rest)
    | _ => none

end

/-- A document in the middle: what has been read, and the path of the header that counts now. -/
structure Place where
  root : Toml.Table
  path : List String

/-- A header behind its opening brackets, up to the end of its line. -/
def header? (closing : List Char) (cs : List Char) : Option (List String × String × List Char) := do
  let (path, key, rest) ← key? cs
  if closing.isPrefixOf rest then
    pure (path, key, ← lineEnd? (rest.drop closing.length))
  else none

/-- Reads the lines of a document. -/
def lines? : Nat → Place → List Char → Option Toml.Table
  | 0, _, _ => none
  | fuel + 1, place, cs =>
    match skipSpace cs with
    | [] => some place.root
    | '#' :: cs => do lines? fuel place (← lineEnd? ('#' :: cs))
    | '\n' :: cs => lines? fuel place cs
    | '\r' :: '\n' :: cs => lines? fuel place cs
    | '[' :: '[' :: cs => do
      let (path, key, rest) ← header? [']', ']'] cs
      let root ← place.root.openElement path key
      lines? fuel ⟨root, path ++ [key]⟩ rest
    | '[' :: cs => do
      let (path, key, rest) ← header? [']'] cs
      let root ← place.root.openTable path key
      lines? fuel ⟨root, path ++ [key]⟩ rest
    | cs => do
      let (path, key, rest) ← assigned? cs
      let (v, rest) ← value? (2 * rest.length + 2) 0 rest
      let rest ← lineEnd? rest
      let root ← place.root.modify false (Toml.Table.add path key v) place.path
      lines? fuel ⟨root, place.path⟩ rest

end TomlReading

/-- The entries of a document. A byte-order mark in front of it is skipped. -/
def Toml.parse? (text : String) : Option (List (String × Toml)) :=
  let cs := match text.toList with
    | '\uFEFF' :: cs => cs
    | cs => cs
  (TomlReading.lines? (cs.length + 1) ⟨Toml.Table.opened, []⟩ cs).map Toml.Table.draftEntries

end FormulaDigest
