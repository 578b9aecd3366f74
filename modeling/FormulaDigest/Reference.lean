import FormulaDigest.Utf8

/-!
# Cell references in text

A reference is a run of one to three capital letters and a run of digits, with an optional absolute
marker before each. The search is textual: it goes from left to right, takes the longest reference
at the first place where one starts, and resumes behind it. It knows nothing of string literals or
of words, so in a run of four letters the last three can start a reference.
-/
namespace FormulaDigest

/-- A reference as it stands in a text. -/
structure Reference where
  columnMarked : Bool
  letters : List Char
  rowMarked : Bool
  digits : List Char
  deriving DecidableEq, Repr

/-- A reference found in a text: its span in bytes and its letters. -/
structure Token where
  start : Nat
  stop : Nat
  letters : String
  deriving DecidableEq, Repr

/-- A stretch of a scanned text: a reference, or one character that belongs to none. -/
inductive Piece
  | plain (c : Char)
  | reference (r : Reference)
  deriving DecidableEq, Repr

/-- Whether a text starts with an absolute marker, and what follows it. -/
def Reference.marker : List Char → Bool × List Char
  | '$' :: cs => (true, cs)
  | cs => (false, cs)

namespace Reference

def markerText (marked : Bool) : List Char := if marked then ['$'] else []

/-- The characters of a reference. -/
def text (r : Reference) : List Char :=
  markerText r.columnMarked ++ r.letters ++ markerText r.rowMarked ++ r.digits

/-- The reference at the beginning of a text, with the rest of the text. -/
def read? (cs : List Char) : Option (Reference × List Char) :=
  let (columnMarked, cs) := marker cs
  let letters := cs.takeWhile Char.isUpper
  let (rowMarked, cs) := marker (cs.dropWhile Char.isUpper)
  let digits := cs.takeWhile Char.isDigit
  if 1 ≤ letters.length ∧ letters.length ≤ 3 ∧ digits ≠ [] then
    some (⟨columnMarked, letters, rowMarked, digits⟩, cs.dropWhile Char.isDigit)
  else none

theorem marker_eq (cs : List Char) : markerText (marker cs).1 ++ (marker cs).2 = cs := by
  unfold marker
  split <;> simp [markerText]

/-- Reading splits a text: the reference and the rest make up the whole. -/
theorem text_append_of_read? {cs rest : List Char} {r : Reference}
    (h : read? cs = some (r, rest)) : r.text ++ rest = cs := by
  simp only [read?, Option.ite_none_right_eq_some, Option.some.injEq, Prod.mk.injEq] at h
  obtain ⟨_, rfl, rfl⟩ := h
  simp only [text, List.append_assoc, List.takeWhile_append_dropWhile, marker_eq]

theorem digits_ne_nil_of_read? {cs rest : List Char} {r : Reference}
    (h : read? cs = some (r, rest)) : r.digits ≠ [] := by
  simp only [read?, Option.ite_none_right_eq_some, Option.some.injEq, Prod.mk.injEq] at h
  obtain ⟨⟨_, _, nonempty⟩, rfl, _⟩ := h
  exact nonempty

theorem length_lt_of_read? {cs rest : List Char} {r : Reference}
    (h : read? cs = some (r, rest)) : rest.length < cs.length := by
  have whole := congrArg List.length (text_append_of_read? h)
  have digits := List.length_pos_iff.mpr (digits_ne_nil_of_read? h)
  simp only [text, List.length_append] at whole
  omega

end Reference

namespace Piece

def text : Piece → List Char
  | .plain c => [c]
  | .reference r => r.text

/-- Splits a text into references and the characters between them. -/
def split : List Char → List Piece
  | [] => []
  | c :: cs =>
    match _h : Reference.read? (c :: cs) with
    | some (r, rest) => .reference r :: split rest
    | none => .plain c :: split cs
termination_by cs => cs.length
decreasing_by
  · exact Reference.length_lt_of_read? _h
  · simp

theorem split_of_read?_eq_none {c : Char} {cs : List Char}
    (h : Reference.read? (c :: cs) = none) : split (c :: cs) = .plain c :: split cs := by
  rw [split]
  split
  next hread => rw [h] at hread; cases hread
  next => rfl

theorem split_of_read?_eq_some {c : Char} {cs rest : List Char} {r : Reference}
    (h : Reference.read? (c :: cs) = some (r, rest)) :
    split (c :: cs) = .reference r :: split rest := by
  rw [split]
  split
  next hread => rw [h] at hread; cases hread; rfl
  next hread => rw [h] at hread; cases hread

/-- No character is lost or moved. -/
theorem flatMap_text_split (cs : List Char) : (split cs).flatMap text = cs := by
  fun_induction split cs with
  | case1 => rfl
  | case2 c cs r rest h ih => simp [text, ih, Reference.text_append_of_read? h]
  | case3 c cs h ih => simp [text, ih]

/-- The references among the pieces, placed behind `offset` bytes of text. -/
def tokens (offset : Nat) : List Piece → List Token
  | [] => []
  | .plain c :: pieces => tokens (offset + c.utf8Size) pieces
  | .reference r :: pieces =>
    let stop := offset + Utf8.width r.text
    ⟨offset, stop, String.ofList r.letters⟩ :: tokens stop pieces

end Piece

/-- Finds references in a text, left to right and without overlap. -/
abbrev Scanner := String → List Token

/-- The references of a text. -/
def Reference.scan : Scanner := fun text => Piece.tokens 0 (Piece.split text.toList)

end FormulaDigest
