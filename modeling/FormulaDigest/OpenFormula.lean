/-!
# OpenFormula references

Open documents store formulas under a namespace and write references in brackets, with a dot
before the cell and the sheet name, if any, in front of the dot: `of:=SUM([$Data.A1:.B2])`.
Normalizing drops the namespace and writes every bracketed reference in A1 notation,
`SUM(Data!A1:B2)`. Brackets that hold something else are kept.
-/
namespace FormulaDigest.OpenFormula

/-- The text behind the last separator and the text before it, if there is a separator. -/
def splitLast? (separator : Char) (cs : List Char) : Option (List Char × List Char) :=
  let back := cs.reverse
  match back.dropWhile (· ≠ separator) with
  | [] => none
  | _ :: front => some (front.reverse, (back.takeWhile (· ≠ separator)).reverse)

/-- A text without one given character at its start. -/
def dropMark (mark : Char) : List Char → List Char
  | [] => []
  | c :: cs => if c = mark then cs else c :: cs

def isCellChar (c : Char) : Bool := c = '$' || c.isAlphanum

/-- `Sheet.A1` as `Sheet!A1` and `.A1` as `A1`. The cell is what follows the last dot. -/
def part? (cs : List Char) : Option (List Char) := do
  let (sheet, cell) ← splitLast? '.' cs
  if cell ≠ [] ∧ cell.all isCellChar then
    let sheet := dropMark '$' sheet
    pure (if sheet = [] then cell else sheet ++ '!' :: cell)
  else none

/-- The content of a bracket group in A1 notation, if all its parts are references. -/
def group? (cs : List Char) : Option (List Char) := do
  let parts ← (cs.splitOn ':').mapM part?
  pure (List.intercalate [':'] parts)

def isBracket (c : Char) : Bool := c = '[' || c = ']'

/-- The content of the group whose opening bracket stands before a text, and what follows the
group. The content is not empty and holds no bracket. -/
def content? (cs : List Char) : Option (List Char × List Char) :=
  match cs.dropWhile (!isBracket ·) with
  | ']' :: rest =>
    let content := cs.takeWhile (!isBracket ·)
    if content = [] then none else some (content, rest)
  | _ => none

theorem append_of_content? {cs content rest : List Char} (h : content? cs = some (content, rest)) :
    content ++ ']' :: rest = cs := by
  unfold content? at h
  split at h
  case h_1 rest' heq =>
    simp only [Option.ite_none_left_eq_some, Option.some.injEq, Prod.mk.injEq] at h
    obtain ⟨_, rfl, rfl⟩ := h
    rw [← heq, List.takeWhile_append_dropWhile]
  case h_2 => simp at h

theorem length_lt_of_content? {cs content rest : List Char}
    (h : content? cs = some (content, rest)) : rest.length < cs.length := by
  rw [← append_of_content? h]
  simp
  omega

/-- Writes the bracket groups of a text in A1 notation, from left to right. -/
def unbracket : List Char → List Char
  | [] => []
  | c :: cs =>
    if c = '[' then
      match _h : content? cs with
      | some (content, rest) =>
        (group? content).getD ('[' :: content ++ [']']) ++ unbracket rest
      | none => c :: unbracket cs
    else c :: unbracket cs
termination_by cs => cs.length
decreasing_by
  · exact Nat.lt_succ_of_lt (length_lt_of_content? _h)
  · simp
  · simp

/-- The text behind the namespace of a formula, if it has one. -/
def namespaced? : List Char → Option (List Char)
  | 'o' :: 'f' :: ':' :: cs => some cs
  | 'm' :: 's' :: 'o' :: 'x' :: 'l' :: ':' :: cs => some cs
  | _ => none

/-- A formula in A1 notation. Without a namespace it is one already. -/
def normalize (formula : String) : String :=
  match namespaced? formula.toList with
  | some cs => String.ofList (unbracket (dropMark '=' cs))
  | none => formula

end FormulaDigest.OpenFormula
