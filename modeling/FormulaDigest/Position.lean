import FormulaDigest.Blank
import FormulaDigest.Column

/-!
# Cell positions

A position counts rows and columns from zero and is written in A1 notation, column letters and
then the one-based row. Reading ignores surrounding white space and absolute markers. Positions
are ordered row by row.
-/
namespace FormulaDigest

structure Position where
  row : Nat
  column : Nat
  deriving DecidableEq, Repr

namespace Position

instance : Ord Position := ⟨compareLex (compareOn row) (compareOn column)⟩

instance : Std.TransOrd Position :=
  inferInstanceAs (Std.TransCmp (compareLex (compareOn row) (compareOn column)))

instance : Std.LawfulEqOrd Position where
  eq_of_compare {a b} h := by
    cases a; cases b
    have same : compareLex (compareOn row) (compareOn column) _ _ = .eq := h
    simpa [compareLex, compareOn, Ordering.then_eq_eq] using same

/-- The A1 form of a position. -/
def a1 (p : Position) : String :=
  Column.name p.column ++ (p.row + 1).repr

/-- Letters up to the first digit and nothing but digits from there on. -/
def ofChars? (cs : List Char) : Option Position :=
  let letters := cs.takeWhile (!·.isDigit)
  let digits := cs.dropWhile (!·.isDigit)
  let row := Nat.ofDigitChars 10 digits 0
  if digits.all Char.isDigit ∧ 1 ≤ row ∧ row ≤ Column.limit then
    (Column.ofLetters? letters).map fun column => ⟨row - 1, column⟩
  else none

end Position

/-- A text that is no address. -/
structure InvalidAddress where
  text : String
  deriving DecidableEq, Repr

def InvalidAddress.message (e : InvalidAddress) : String :=
  "Invalid cell address: '" ++ e.text ++ "'"

/-- Reads an address in A1 notation. -/
def Position.parse (text : String) : Except InvalidAddress Position :=
  match ofChars? ((Blank.trim text.toList).filter (· ≠ '$')) with
  | some p => .ok p
  | none => .error ⟨text⟩

end FormulaDigest
