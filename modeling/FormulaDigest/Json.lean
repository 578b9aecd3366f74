import FormulaDigest.Hex

/-!
# JSON documents

The values of JSON and their two written forms: compact, and spread over lines with two spaces for
each level. A string may be written with an escape that stands for half of a surrogate pair; such
a string is well-formed JSON but denotes no text, so its content is absent.
-/
namespace FormulaDigest

inductive Json
  | null
  | boolean (b : Bool)
  | number (numeral : String)
  | string (content : Option String)
  | array (items : List Json)
  | object (members : List (Option String × Json))
  deriving Repr

namespace Json

def text (s : String) : Json := .string (some s)

def natural (n : Nat) : Json := .number n.repr

/-- An object from names and values. -/
def record (members : List (String × Json)) : Json :=
  .object (members.map fun m => (some m.1, m.2))

def content? : Json → Option String
  | .string content => content
  | _ => none

def items? : Json → Option (List Json)
  | .array items => some items
  | _ => none

/-- The value of the first member with a given name. -/
def member? (name : String) : Json → Option Json
  | .object members => (members.find? (·.1 = some name)).map Prod.snd
  | _ => none

/-- One character of a string literal. Quotes, backslashes and control characters are escaped. -/
def escape (c : Char) : List Char :=
  if c = '"' then ['\\', '"']
  else if c = '\\' then ['\\', '\\']
  else if c = '\x08' then ['\\', 'b']
  else if c = '\t' then ['\\', 't']
  else if c = '\n' then ['\\', 'n']
  else if c = '\x0c' then ['\\', 'f']
  else if c = '\r' then ['\\', 'r']
  else if c.toNat < 0x20 then
    ['\\', 'u', '0', '0', Hex.digit (c.toNat / 16), Hex.digit (c.toNat % 16)]
  else [c]

/-- A string literal. One that denotes no text is written as a lone surrogate. -/
def literal : Option String → List Char
  | some s => '"' :: s.toList.flatMap escape ++ ['"']
  | none => "\"\\ud800\"".toList

mutual

/-- A value without white space. -/
def compact : Json → List Char
  | .null => "null".toList
  | .boolean true => "true".toList
  | .boolean false => "false".toList
  | .number numeral => numeral.toList
  | .string content => literal content
  | .array items => '[' :: compactItems items ++ [']']
  | .object members => '{' :: compactMembers members ++ ['}']

def compactItems : List Json → List Char
  | [] => []
  | [v] => compact v
  | v :: vs => compact v ++ ',' :: compactItems vs

def compactMembers : List (Option String × Json) → List Char
  | [] => []
  | [(name, v)] => literal name ++ ':' :: compact v
  | (name, v) :: ms => literal name ++ ':' :: compact v ++ ',' :: compactMembers ms

end

/-- A line break and the indentation of a level. -/
def newLine (depth : Nat) : List Char :=
  '\n' :: List.replicate (2 * depth) ' '

mutual

/-- A value over several lines. An empty array or object stays on one. -/
def pretty (depth : Nat) : Json → List Char
  | .null => "null".toList
  | .boolean true => "true".toList
  | .boolean false => "false".toList
  | .number numeral => numeral.toList
  | .string content => literal content
  | .array [] => ['[', ']']
  | .array (v :: vs) => '[' :: prettyItems (depth + 1) (v :: vs) ++ newLine depth ++ [']']
  | .object [] => ['{', '}']
  | .object (m :: ms) => '{' :: prettyMembers (depth + 1) (m :: ms) ++ newLine depth ++ ['}']

def prettyItems (depth : Nat) : List Json → List Char
  | [] => []
  | [v] => newLine depth ++ pretty depth v
  | v :: vs => newLine depth ++ pretty depth v ++ ',' :: prettyItems depth vs

def prettyMembers (depth : Nat) : List (Option String × Json) → List Char
  | [] => []
  | [(name, v)] => newLine depth ++ literal name ++ ':' :: ' ' :: pretty depth v
  | (name, v) :: ms =>
    newLine depth ++ literal name ++ ':' :: ' ' :: pretty depth v ++ ',' :: prettyMembers depth ms

end

end Json

end FormulaDigest
