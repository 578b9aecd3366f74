import FormulaDigest.Position
import FormulaDigest.ShortestDecimal

/-!
# Cells

What a cell holds: a literal value, a formula, both or neither. The two are independent, since a
formula cell usually keeps its last computed value.
-/
namespace FormulaDigest

inductive Value
  | number (x : Float)
  | text (s : String)
  | boolean (b : Bool)
  | error (code : String)
  deriving Repr

/-- The text form of a value. -/
def Value.display : Value → String
  | .number x => ShortestDecimal.text x
  | .text s => s
  | .boolean true => "true"
  | .boolean false => "false"
  | .error code => code

structure Cell where
  position : Position
  value : Option Value
  formula : Option String
  deriving Repr

def Cell.hasFormula (c : Cell) : Bool := c.formula.isSome

end FormulaDigest
