/-!
# Reading decimals

The nearest double to a decimal text: a sign, digits with at most one point among them, and an
exponent, or the name of an infinity or of what is not a number.
-/
namespace FormulaDigest.DecimalReading

/-- The nearest double to `digits * 10 ^ exponent`. Past the range of doubles the answer needs no
power of ten: 400 orders of magnitude in either direction are enough. -/
def nearest (digits : Nat) (exponent : Int) : Float :=
  let magnitude := (Nat.toDigits 10 digits).length + exponent
  if digits = 0 ∨ magnitude < -400 then 0
  else if 400 < magnitude then Float.ofBits 0x7FF0000000000000
  else Float.ofScientific digits (exponent < 0) exponent.natAbs

/-- A sign in front of a text, and the rest. -/
def sign : List Char → Bool × List Char
  | '-' :: cs => (true, cs)
  | '+' :: cs => (false, cs)
  | cs => (false, cs)

/-- The power of ten behind the mark `e`; an absent one is zero. -/
def exponent? : List Char → Option Int
  | [] => some 0
  | mark :: cs =>
    if mark = 'e' ∨ mark = 'E' then
      let (negative, digits) := sign cs
      if digits ≠ [] ∧ digits.all Char.isDigit then
        let n := Nat.ofDigitChars 10 digits 0
        some (if negative then -(n : Int) else n)
      else none
    else none

/-- A number without its sign. -/
def unsigned? (cs : List Char) : Option Float :=
  let name := cs.map Char.toLower
  if name = "inf".toList ∨ name = "infinity".toList then some (Float.ofBits 0x7FF0000000000000)
  else if name = "nan".toList then some (Float.ofBits 0x7FF8000000000000)
  else do
    let whole := cs.takeWhile Char.isDigit
    let rest := cs.dropWhile Char.isDigit
    let (places, rest) := match rest with
      | '.' :: more => (more.takeWhile Char.isDigit, more.dropWhile Char.isDigit)
      | rest => ([], rest)
    let power ← exponent? rest
    if whole ++ places = [] then none
    else some (nearest (Nat.ofDigitChars 10 (whole ++ places) 0) (power - places.length))

/-- The double nearest to a decimal text, if the text is a decimal. -/
def read? (s : String) : Option Float :=
  let (negative, cs) := sign s.toList
  (unsigned? cs).map fun x => if negative then -x else x

end FormulaDigest.DecimalReading
