/-!
# Column letters

Columns count `A` to `Z`, `AA`, `AB` and so on: bijective numeration in base 26, with digits from
one to 26 and no zero. Reading accepts either case and numbers that fit 32 bits.
-/
namespace FormulaDigest.Column

/-- The largest one-based column or row number that an address can name. -/
def limit : Nat := 0xFFFFFFFF

/-- The letter of a digit counted from zero. -/
def letter (digit : Nat) : Char :=
  Char.ofNat ('A'.toNat + digit)

/-- The letters of a zero-based column. -/
def letters (column : Nat) : List Char :=
  (if column < 26 then [] else letters (column / 26 - 1)) ++ [letter (column % 26)]
termination_by column

def name (column : Nat) : String :=
  String.ofList (letters column)

/-- The one-based value of a letter in either case. -/
def letterValue (c : Char) : Nat :=
  c.toUpper.toNat - 'A'.toNat + 1

/-- The one-based number that a run of letters denotes. -/
def value (cs : List Char) : Nat :=
  cs.foldl (fun v c => 26 * v + letterValue c) 0

/-- The zero-based column of a nonempty run of letters whose number is within the limit. -/
def ofLetters? (cs : List Char) : Option Nat :=
  if cs ≠ [] ∧ cs.all Char.isAlpha ∧ value cs ≤ limit then some (value cs - 1) else none

def ofName? (s : String) : Option Nat :=
  ofLetters? s.toList

theorem value_concat (cs : List Char) (c : Char) :
    value (cs ++ [c]) = 26 * value cs + letterValue c := by
  simp [value]

theorem letters_ne_nil (column : Nat) : letters column ≠ [] := by
  rw [letters]; simp

end FormulaDigest.Column
