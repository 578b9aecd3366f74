/-!
# Hexadecimal digits

Reading in either case, writing in lower case.
-/
namespace FormulaDigest.Hex

def digitValue? (c : Char) : Option Nat :=
  if c.isDigit then some (c.toNat - '0'.toNat)
  else if 'a' ≤ c ∧ c ≤ 'f' then some (c.toNat - 'a'.toNat + 10)
  else if 'A' ≤ c ∧ c ≤ 'F' then some (c.toNat - 'A'.toNat + 10)
  else none

/-- The number that a run of digits denotes. -/
def value? (cs : List Char) : Option Nat :=
  cs.foldlM (fun v c => (digitValue? c).map (16 * v + ·)) 0

/-- The digit of a number below sixteen. -/
def digit (n : Nat) : Char :=
  Char.ofNat (if n < 10 then '0'.toNat + n else 'a'.toNat + (n - 10))

theorem digitValue?_digit {n : Nat} (h : n < 16) : digitValue? (digit n) = some n := by
  have all : ∀ m : Fin 16, digitValue? (digit m) = some m.val := by decide
  exact all ⟨n, h⟩

end FormulaDigest.Hex
