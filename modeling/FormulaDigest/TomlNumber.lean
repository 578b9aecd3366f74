import FormulaDigest.DecimalReading
import FormulaDigest.Hex
import FormulaDigest.Toml

/-!
# TOML numbers, dates and times

Integers of 64 bits in four bases, doubles that do not overflow, and dates and times that exist.
-/
namespace FormulaDigest.TomlNumber

/-- A span of characters and the text behind it. -/
abbrev Span := List Char × List Char

/-- The digits that may follow a first one, each with at most one underscore before it. -/
def moreDigits (isDigit : Char → Bool) : List Char → Span
  | [] => ([], [])
  | [c] => if isDigit c then ([c], []) else ([], [c])
  | c :: d :: cs =>
    if isDigit c then
      let (more, rest) := moreDigits isDigit (d :: cs)
      (c :: more, rest)
    else if c = '_' ∧ isDigit d then
      let (more, rest) := moreDigits isDigit cs
      (d :: more, rest)
    else ([], c :: d :: cs)

/-- A run of digits without its underscores. -/
def digits? (isDigit : Char → Bool) : List Char → Option Span
  | [] => none
  | c :: cs =>
    if isDigit c then
      let (more, rest) := moreDigits isDigit cs
      some (c :: more, rest)
    else none

/-- Decimal digits without a leading zero. -/
def decimal? : List Char → Option Span
  | '0' :: cs => some (['0'], cs)
  | cs => digits? Char.isDigit cs

def ofDigits (base : Nat) (digits : List Char) : Nat :=
  digits.foldl (fun n c => base * n + (Hex.digitValue? c).getD 0) 0

/-- The least magnitude that a positive integer cannot have and a negative one just can, so that
integers fit 64 bits. -/
def limit : Nat := 0x8000000000000000

/-- The digits of a base, when the number they denote is below the limit. -/
def based? (base : Nat) (isDigit : Char → Bool) (cs : List Char) : Option (Toml × List Char) := do
  let (digits, rest) ← digits? isDigit cs
  let n := ofDigits base digits
  guard (n < limit)
  pure (.integer n, rest)

/-- An integer. Only a decimal one may have a sign. -/
def integer? : List Char → Option (Toml × List Char)
  | '0' :: 'x' :: cs => based? 16 (fun c => (Hex.digitValue? c).isSome) cs
  | '0' :: 'o' :: cs => based? 8 (fun c => '0' ≤ c && c ≤ '7') cs
  | '0' :: 'b' :: cs => based? 2 (fun c => c = '0' || c = '1') cs
  | cs => do
    let (negative, cs) := DecimalReading.sign cs
    let (digits, rest) ← decimal? cs
    let n := ofDigits 10 digits
    guard (if negative then n ≤ limit else n < limit)
    pure (.integer (if negative then -(n : Int) else n), rest)

def fraction? : List Char → Option Span
  | '.' :: cs => (digits? Char.isDigit cs).map fun span => ('.' :: span.1, span.2)
  | _ => none

def power? : List Char → Option Span
  | [] => none
  | mark :: cs =>
    if mark = 'e' ∨ mark = 'E' then
      let (negative, cs) := DecimalReading.sign cs
      (digits? Char.isDigit cs).map fun span =>
        ('e' :: (if negative then ['-'] else []) ++ span.1, span.2)
    else none

/-- A double: digits with a fraction, a power of ten or both, or the name of a special value. A
value that rounds to positive infinity is refused unless it is named. -/
def float? (cs : List Char) : Option (Toml × List Char) :=
  let (negative, rest) := DecimalReading.sign cs
  match rest with
  | 'i' :: 'n' :: 'f' :: rest => (DecimalReading.read? "inf").map fun x =>
    (.float (if negative then -x else x), rest)
  | 'n' :: 'a' :: 'n' :: rest => (DecimalReading.read? "nan").map fun x =>
    (.float (if negative then -x else x), rest)
  | rest => do
    let (whole, rest) ← decimal? rest
    let (fraction, rest) := (fraction? rest).getD ([], rest)
    let (power, rest) := (power? rest).getD ([], rest)
    guard (fraction ++ power ≠ [])
    let sign := if negative then ['-'] else []
    let x ← DecimalReading.read? (String.ofList (sign ++ whole ++ fraction ++ power))
    guard (x.toBits ≠ 0x7FF0000000000000)
    pure (.float x, rest)

/-- The number that exactly `n` digits denote. -/
def fixed? (n : Nat) (cs : List Char) : Option (Nat × List Char) :=
  let digits := cs.take n
  if digits.length = n ∧ digits.all Char.isDigit then
    some (Nat.ofDigitChars 10 digits 0, cs.drop n)
  else none

/-- A number of exactly `n` digits between two bounds. -/
def field? (n low high : Nat) (cs : List Char) : Option (Nat × List Char) := do
  let (value, rest) ← fixed? n cs
  guard (low ≤ value ∧ value ≤ high)
  pure (value, rest)

def mark? (c : Char) : List Char → Option (List Char)
  | [] => none
  | d :: cs => if c = d then some cs else none

def isLeapYear (year : Nat) : Bool := year % 4 = 0 && (year % 100 ≠ 0 || year % 400 = 0)

def monthLength (year month : Nat) : Nat :=
  if month = 2 then if isLeapYear year then 29 else 28
  else if month = 4 ∨ month = 6 ∨ month = 9 ∨ month = 11 then 30
  else 31

/-- The text behind a date. -/
def date? (cs : List Char) : Option (List Char) := do
  let (year, cs) ← fixed? 4 cs
  let (month, cs) ← field? 2 1 12 (← mark? '-' cs)
  let (_, cs) ← field? 2 1 (monthLength year month) (← mark? '-' cs)
  pure cs

/-- The text behind a time of day, which may have a fraction of a second. -/
def time? (cs : List Char) : Option (List Char) := do
  let (_, cs) ← field? 2 0 23 cs
  let (_, cs) ← field? 2 0 59 (← mark? ':' cs)
  let (_, cs) ← field? 2 0 60 (← mark? ':' cs)
  match cs with
  | '.' :: rest => if rest.takeWhile Char.isDigit = [] then cs else rest.dropWhile Char.isDigit
  | cs => cs

/-- The text behind an offset from universal time. -/
def offset? : List Char → Option (List Char)
  | [] => none
  | c :: cs =>
    if c = 'Z' ∨ c = 'z' then some cs
    else if c = '+' ∨ c = '-' then do
      let (_, cs) ← field? 2 0 23 cs
      let (_, cs) ← field? 2 0 59 (← mark? ':' cs)
      pure cs
    else none

/-- The text behind a time that follows a date, with its offset. -/
def timeOfDate? : List Char → Option (List Char)
  | [] => none
  | c :: cs =>
    if c = 'T' ∨ c = 't' ∨ c = ' ' then (time? cs).map fun rest => (offset? rest).getD rest
    else none

/-- The text behind a date, a time, or a date and a time. -/
def dateTime? (cs : List Char) : Option (List Char) :=
  match date? cs with
  | some rest => some ((timeOfDate? rest).getD rest)
  | none => time? cs

/-- A value that starts with a digit, a sign or the name of a special value. -/
def value? (cs : List Char) : Option (Toml × List Char) :=
  match dateTime? cs with
  | some rest => some (.dateTime, rest)
  | none => (float? cs).or (integer? cs)

end FormulaDigest.TomlNumber
