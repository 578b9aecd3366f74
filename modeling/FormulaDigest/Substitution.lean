import FormulaDigest.Headers
import FormulaDigest.Reference

/-!
# Substitution of references

A formula becomes readable when each reference in it gives way to the header of its column. Where
the column has no header, or an empty one, the bare column letters stand. Inserted names are not
searched again.
-/
namespace FormulaDigest

/-- A formula text without the equals sign that may start it. Only one is dropped. -/
def Formula.body (formula : String) : List Char :=
  match formula.toList with
  | '=' :: cs => cs
  | cs => cs

namespace Headers

/-- What stands for a reference with the given column letters. -/
def display (h : Headers) (letters : String) : String :=
  match (Column.ofName? letters).bind h.get? with
  | some name => if name = "" then letters else name
  | none => letters

/-- The text of a piece after substitution. -/
def displayPiece (h : Headers) : Piece → List Char
  | .plain c => [c]
  | .reference r => (h.display (String.ofList r.letters)).toList

/-- Replaces every reference of a formula. -/
def substitute (h : Headers) (formula : String) : String :=
  String.ofList ((Piece.split (Formula.body formula)).flatMap h.displayPiece)

end Headers

namespace Scanner

/-- Copies a text from the byte `last` on, with `display` standing for each token. A span that runs
backwards, leaves the text or cuts a character has no result. -/
def splice? (display : String → String) (body : List Char) (last : Nat) :
    List Token → Option (List Char)
  | [] => Utf8.slice? body last (Utf8.width body)
  | t :: tokens => do
    let kept ← Utf8.slice? body last t.start
    let tail ← splice? display body t.stop tokens
    pure (kept ++ (display t.letters).toList ++ tail)

/-- Replaces the references that a scanner finds in a formula. -/
def substitute? (scan : Scanner) (h : Headers) (formula : String) : Option String :=
  let body := Formula.body formula
  (splice? h.display body 0 (scan (String.ofList body))).map String.ofList

end Scanner

end FormulaDigest
