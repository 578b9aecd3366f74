import FormulaDigest.Hex

/-!
# TOML strings, keys and blanks

The four kinds of strings, keys with dots, comments, and the blanks between tokens.
-/
namespace FormulaDigest.TomlText

/-- The characters that comments and strings may hold: no control character but the tab. -/
def isText (c : Char) : Bool := c = '\t' || (0x20 ≤ c.toNat && c.toNat ≠ 0x7F)

def isSpace (c : Char) : Bool := c = ' ' || c = '\t'

def skipSpace (cs : List Char) : List Char := cs.dropWhile isSpace

/-- The text behind a line break, if it starts with one. -/
def newLine? : List Char → Option (List Char)
  | '\n' :: cs => some cs
  | '\r' :: '\n' :: cs => some cs
  | _ => none

/-- The rest of a line holds at most a comment, and ends with a line break or the text. -/
def lineEnd? (cs : List Char) : Option (List Char) :=
  let rest := match skipSpace cs with
    | '#' :: cs => cs.dropWhile isText
    | cs => cs
  if rest = [] then some [] else newLine? rest

/-- Drops blanks, line breaks and comments. A comment ends where a line break or a character that
it may not hold stands. -/
def skipLines (inComment : Bool) : List Char → List Char
  | [] => []
  | '\n' :: cs => skipLines false cs
  | '\r' :: '\n' :: cs => skipLines false cs
  | c :: cs =>
    if inComment then if isText c then skipLines true cs else c :: cs
    else if c = '#' then skipLines true cs
    else if isSpace c then skipLines false cs
    else c :: cs

/-- The character that a run of hexadecimal digits names. -/
def scalar? (digits : List Char) : Option Char := do
  let n ← Hex.value? digits
  if n.isValidChar then some (Char.ofNat n) else none

/-- The character behind a backslash, other than `u` and `U`. -/
def escaped? (c : Char) : Option Char :=
  if c = '"' ∨ c = '\\' then some c
  else if c = 'b' then some '\x08'
  else if c = 't' then some '\t'
  else if c = 'n' then some '\n'
  else if c = 'f' then some '\x0c'
  else if c = 'r' then some '\r'
  else none

/-- Content read so far and the rest of the text. -/
abbrev Content := List Char × List Char

def prepend (c : Char) (content : Content) : Content := (c :: content.1, content.2)

/-- A basic string behind its opening quote. -/
def basic? : List Char → Option Content
  | [] => none
  | '"' :: cs => some ([], cs)
  | '\\' :: 'u' :: a :: b :: c :: d :: cs => do
    let x ← scalar? [a, b, c, d]
    (basic? cs).map (prepend x)
  | '\\' :: 'U' :: a :: b :: c :: d :: e :: f :: g :: h :: cs => do
    let x ← scalar? [a, b, c, d, e, f, g, h]
    (basic? cs).map (prepend x)
  | '\\' :: c :: cs => do
    let x ← escaped? c
    (basic? cs).map (prepend x)
  | c :: cs => if isText c then (basic? cs).map (prepend c) else none

/-- A literal string behind its opening quote. -/
def literal? (cs : List Char) : Option Content :=
  match cs.dropWhile fun c => isText c && c ≠ '\x27' with
  | '\x27' :: rest => some (cs.takeWhile fun c => isText c && c ≠ '\x27', rest)
  | _ => none

/-- Whether only blanks stand before the end of the line. -/
def endsLine (cs : List Char) : Bool := (newLine? (skipSpace cs)).isSome

/-- A basic string of several lines behind its opening quotes. Up to two quotes may stand before
the closing ones. Behind a backslash at the end of a line, `joining` drops blanks and line
breaks. -/
def multiBasic? (joining : Bool) : List Char → Option Content
  | [] => none
  | '"' :: '"' :: '"' :: '"' :: '"' :: cs => some (['"', '"'], cs)
  | '"' :: '"' :: '"' :: '"' :: cs => some (['"'], cs)
  | '"' :: '"' :: '"' :: cs => some ([], cs)
  | '\r' :: '\n' :: cs =>
    if joining then multiBasic? true cs else (multiBasic? false cs).map (prepend '\n')
  | '\n' :: cs =>
    if joining then multiBasic? true cs else (multiBasic? false cs).map (prepend '\n')
  | '\\' :: 'u' :: a :: b :: c :: d :: cs => do
    let x ← scalar? [a, b, c, d]
    (multiBasic? false cs).map (prepend x)
  | '\\' :: 'U' :: a :: b :: c :: d :: e :: f :: g :: h :: cs => do
    let x ← scalar? [a, b, c, d, e, f, g, h]
    (multiBasic? false cs).map (prepend x)
  | '\\' :: c :: cs =>
    match escaped? c with
    | some x => (multiBasic? false cs).map (prepend x)
    | none => if endsLine (c :: cs) then multiBasic? true (c :: cs) else none
  | c :: cs =>
    if joining && isSpace c then multiBasic? true cs
    else if isText c then (multiBasic? false cs).map (prepend c)
    else none

/-- A literal string of several lines behind its opening quotes. -/
def multiLiteral? : List Char → Option Content
  | [] => none
  | '\x27' :: '\x27' :: '\x27' :: '\x27' :: '\x27' :: cs => some (['\x27', '\x27'], cs)
  | '\x27' :: '\x27' :: '\x27' :: '\x27' :: cs => some (['\x27'], cs)
  | '\x27' :: '\x27' :: '\x27' :: cs => some ([], cs)
  | '\r' :: '\n' :: cs => (multiLiteral? cs).map (prepend '\n')
  | c :: cs => if isText c || c = '\n' then (multiLiteral? cs).map (prepend c) else none

/-- A string value of any kind. A line break right behind three opening quotes is no content. -/
def string? : List Char → Option Content
  | '"' :: '"' :: '"' :: cs => multiBasic? false ((newLine? cs).getD cs)
  | '"' :: cs => basic? cs
  | '\x27' :: '\x27' :: '\x27' :: cs => multiLiteral? ((newLine? cs).getD cs)
  | '\x27' :: cs => literal? cs
  | _ => none

def isBare (c : Char) : Bool := c.isAlphanum || c = '_' || c = '-'

/-- One part of a key: bare, or a string of one line. -/
def keyPart? : List Char → Option Content
  | '"' :: cs => basic? cs
  | '\x27' :: cs => literal? cs
  | cs => if cs.takeWhile isBare = [] then none else some (cs.takeWhile isBare, cs.dropWhile isBare)

/-- The parts of a key, with blanks around each, and the text behind them. -/
def keyParts? : Nat → List Char → Option (List String × List Char)
  | 0, _ => none
  | fuel + 1, cs => do
    let (part, rest) ← keyPart? (skipSpace cs)
    match skipSpace rest with
    | '.' :: rest =>
      let (parts, rest) ← keyParts? fuel rest
      pure (String.ofList part :: parts, rest)
    | rest => pure ([String.ofList part], rest)

/-- The nesting that a document may have, in keys as in values. -/
def maxDepth : Nat := 80

/-- A key as the path to its last part and that part. -/
def key? (cs : List Char) : Option (List String × String × List Char) := do
  let (parts, rest) ← keyParts? maxDepth cs
  let last ← parts.getLast?
  guard (parts.length < maxDepth)
  pure (parts.dropLast, last, rest)

end FormulaDigest.TomlText
