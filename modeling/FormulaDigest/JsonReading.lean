import FormulaDigest.Json

/-!
# Reading JSON

A text is read as one value with nothing but white space around it. Every value of the JSON grammar
is accepted, whatever its depth.
-/
namespace FormulaDigest

namespace JsonReading

def isBlank (c : Char) : Bool := c = ' ' || c = '\n' || c = '\t' || c = '\r'

def skip (cs : List Char) : List Char := cs.dropWhile isBlank

/-- The character behind a backslash, other than `u`. -/
def escaped? (c : Char) : Option Char :=
  if c = '"' ∨ c = '\\' ∨ c = '/' then some c
  else if c = 'b' then some '\x08'
  else if c = 'f' then some '\x0c'
  else if c = 'n' then some '\n'
  else if c = 'r' then some '\r'
  else if c = 't' then some '\t'
  else none

def isHighSurrogate (unit : Nat) : Bool := 0xD800 ≤ unit && unit < 0xDC00

def isLowSurrogate (unit : Nat) : Bool := 0xDC00 ≤ unit && unit < 0xE000

/-- The character that a surrogate pair stands for. -/
def pair (high low : Nat) : Char :=
  Char.ofNat (0x10000 + 0x400 * (high - 0xD800) + (low - 0xDC00))

/-- A string literal behind its opening quote, up to and including the closing one, as code units:
each escape gives one, and each character that stands for itself gives its code point. -/
def units? : List Char → Option (List Nat × List Char)
  | [] => none
  | '"' :: cs => some ([], cs)
  | '\\' :: 'u' :: a :: b :: c :: d :: cs => do
    let unit ← Hex.value? [a, b, c, d]
    let (units, rest) ← units? cs
    pure (unit :: units, rest)
  | '\\' :: c :: cs => do
    let c ← escaped? c
    let (units, rest) ← units? cs
    pure (c.toNat :: units, rest)
  | c :: cs => do
    guard (0x20 ≤ c.toNat)
    let (units, rest) ← units? cs
    pure (c.toNat :: units, rest)

/-- The text of code units, in which surrogates stand in pairs. -/
def text? : List Nat → Option (List Char)
  | [] => some []
  | [unit] =>
    if isHighSurrogate unit || isLowSurrogate unit then none else some [Char.ofNat unit]
  | unit :: next :: units =>
    if isHighSurrogate unit then
      if isLowSurrogate next then (text? units).map (pair unit next :: ·) else none
    else if isLowSurrogate unit then none
    else (text? (next :: units)).map (Char.ofNat unit :: ·)

/-- A nonempty run of digits and the rest. -/
def digits? (cs : List Char) : Option (List Char × List Char) :=
  let digits := cs.takeWhile Char.isDigit
  if digits = [] then none else some (digits, cs.dropWhile Char.isDigit)

/-- The integer part of a number: a zero, or digits that start with none. -/
def whole? : List Char → Option (List Char × List Char)
  | '0' :: cs => some (['0'], cs)
  | cs => digits? cs

def fraction? : List Char → Option (List Char × List Char)
  | '.' :: cs => (digits? cs).map fun part => ('.' :: part.1, part.2)
  | cs => some ([], cs)

def power? : List Char → Option (List Char × List Char)
  | [] => some ([], [])
  | mark :: cs =>
    if mark = 'e' ∨ mark = 'E' then
      let (sign, cs) := match cs with
        | '+' :: cs => (['+'], cs)
        | '-' :: cs => (['-'], cs)
        | cs => ([], cs)
      (digits? cs).map fun part => (mark :: sign ++ part.1, part.2)
    else some ([], mark :: cs)

def number? (cs : List Char) : Option (Json × List Char) := do
  let (sign, cs) := match cs with
    | '-' :: cs => (['-'], cs)
    | cs => ([], cs)
  let (whole, cs) ← whole? cs
  let (fraction, cs) ← fraction? cs
  let (power, cs) ← power? cs
  pure (.number (String.ofList (sign ++ whole ++ fraction ++ power)), cs)

/-- A string literal behind its opening quote. -/
def string? (cs : List Char) : Option (Option String × List Char) :=
  (units? cs).map fun l => ((text? l.1).map String.ofList, l.2)

mutual

/-- A value, with the text behind it. The first argument bounds the nesting. -/
def value? : Nat → List Char → Option (Json × List Char)
  | 0, _ => none
  | fuel + 1, cs =>
    match skip cs with
    | 'n' :: 'u' :: 'l' :: 'l' :: rest => some (.null, rest)
    | 't' :: 'r' :: 'u' :: 'e' :: rest => some (.boolean true, rest)
    | 'f' :: 'a' :: 'l' :: 's' :: 'e' :: rest => some (.boolean false, rest)
    | '"' :: rest => (string? rest).map fun s => (.string s.1, s.2)
    | '[' :: rest =>
      match skip rest with
      | ']' :: rest => some (.array [], rest)
      | rest => (items? fuel rest).map fun vs => (.array vs.1, vs.2)
    | '{' :: rest =>
      match skip rest with
      | '}' :: rest => some (.object [], rest)
      | rest => (members? fuel rest).map fun ms => (.object ms.1, ms.2)
    | rest => number? rest

/-- The items of an array up to its closing bracket. -/
def items? : Nat → List Char → Option (List Json × List Char)
  | 0, _ => none
  | fuel + 1, cs => do
    let (v, rest) ← value? fuel cs
    match skip rest with
    | ',' :: rest =>
      let (vs, rest) ← items? fuel rest
      pure (v :: vs, rest)
    | ']' :: rest => pure ([v], rest)
    | _ => none

/-- The members of an object up to its closing brace. -/
def members? : Nat → List Char → Option (List (Option String × Json) × List Char)
  | 0, _ => none
  | fuel + 1, cs =>
    match skip cs with
    | '"' :: rest => do
      let (name, rest) ← string? rest
      match skip rest with
      | ':' :: rest =>
        let (v, rest) ← value? fuel rest
        match skip rest with
        | ',' :: rest =>
          let (ms, rest) ← members? fuel rest
          pure ((name, v) :: ms, rest)
        | '}' :: rest => pure ([(name, v)], rest)
        | _ => none
      | _ => none
    | _ => none

end

end JsonReading

/-- Reads a text as one JSON value. -/
def Json.parse? (text : String) : Option Json :=
  let cs := text.toList
  match JsonReading.value? (2 * cs.length + 2) cs with
  | some (v, rest) => if JsonReading.skip rest = [] then some v else none
  | none => none

end FormulaDigest
