import FormulaDigest.Proofs.Idempotence

/-!
# Operands between separators

A character that no reference contains cuts a formula in two: no reference reaches across it, and
the search behind it starts afresh. So the tokens of the whole are those of the two parts, each
part is substituted as if it stood alone, and what one operand becomes does not depend on the
others.
-/
namespace FormulaDigest

open Utf8

/-- A character that no reference contains. -/
def IsSeparator (c : Char) : Prop := c.isUpper = false ∧ c.isDigit = false ∧ c ≠ '$'

theorem Utf8.width_toList (s : String) : width s.toList = s.utf8ByteSize := by
  have run (cs : List Char) : width cs = String.utf8Len cs := by
    induction cs with
    | nil => rfl
    | cons c cs ih => rw [width, String.utf8Len_cons, ih, Nat.add_comm]
  rw [run, ← String.utf8ByteSize_ofList, String.ofList_toList]

namespace Reference

variable {c : Char} {cs rest : List Char} {r : Reference}

theorem WellFormed.notMem_text (hr : r.WellFormed) (hc : IsSeparator c) : c ∉ r.text := by
  obtain ⟨hu, hd, hm⟩ := hc
  have marker (marked : Bool) : c ∉ markerText marked := by cases marked <;> simp [markerText, hm]
  have letters : c ∉ r.letters := fun h => by simp [hr.isUpper c h] at hu
  have digits : c ∉ r.digits := fun h => by simp [hr.isDigit c h] at hd
  simp [text, marker, letters, digits]

/-- Reading in front of a separator is reading the text that ends there. -/
theorem read?_append_separator (hc : IsSeparator c) (cs v : List Char) :
    read? (cs ++ c :: v) = (read? cs).map fun found => (found.1, found.2 ++ c :: v) := by
  cases h : read? cs with
  | some found =>
    obtain ⟨hr, ended, hcs⟩ := read?_eq_some_iff.mp h
    have ended' : ∀ d ∈ (found.2 ++ c :: v).head?, d.isDigit = false := by
      cases hrest : found.2 with
      | nil => simpa using hc.2.1
      | cons d rest =>
        rw [hrest] at ended
        simpa using ended
    rw [← hcs, List.append_assoc, read?_text_append hr ended', Option.map_some]
  | none =>
    rw [Option.map_none, Option.eq_none_iff_forall_ne_some]
    intro found hfound
    obtain ⟨hr, -, hcs⟩ := read?_eq_some_iff.mp hfound
    rcases List.append_eq_append_iff.mp hcs with ⟨rest, rfl, -⟩ | ⟨part, hpart, hrest⟩
    · exact read?_text_append_ne_none hr rest h
    · cases part with
      | nil =>
        have hwhole := read?_text_append_ne_none hr []
        rw [hpart, List.append_nil, List.append_nil] at hwhole
        exact hwhole h
      | cons d part =>
        -- Here the reference would reach across the separator.
        obtain ⟨rfl, -⟩ := List.cons.inj hrest
        exact hr.notMem_text hc (by simp [hpart])

end Reference

namespace Piece

variable {c : Char}

/-- A text with a separator in it is split in its two parts. -/
theorem split_append_separator (hc : IsSeparator c) (u v : List Char) :
    split (u ++ c :: v) = split u ++ .plain c :: split v := by
  have hread := Reference.read?_append_separator hc
  fun_induction split u with
  | case1 =>
    have hnone : Reference.read? (c :: v) = none := hread [] v
    rw [List.nil_append, List.nil_append, split_of_read?_eq_none hnone]
  | case2 d u r rest h ih =>
    have hsome : Reference.read? (d :: (u ++ c :: v)) = some (r, rest ++ c :: v) := by
      rw [← List.cons_append, hread, h, Option.map_some]
    rw [List.cons_append, split_of_read?_eq_some hsome, ih, List.cons_append]
  | case3 d u h ih =>
    have hnone : Reference.read? (d :: (u ++ c :: v)) = none := by
      rw [← List.cons_append, hread, h, Option.map_none]
    rw [List.cons_append, split_of_read?_eq_none hnone, ih, List.cons_append]

end Piece

/-- A token of a text that stands behind `n` more bytes. -/
def Token.shift (n : Nat) (t : Token) : Token := { t with start := n + t.start, stop := n + t.stop }

namespace Piece

theorem tokens_add (n offset : Nat) (pieces : List Piece) :
    tokens (n + offset) pieces = (tokens offset pieces).map (Token.shift n) := by
  induction pieces generalizing offset with
  | nil => rfl
  | cons p pieces ih =>
    cases p with
    | plain c => rw [tokens, tokens, Nat.add_assoc, ih]
    | reference r => rw [tokens, tokens, Nat.add_assoc, ih, List.map_cons, Token.shift]

theorem tokens_append (offset : Nat) (pieces others : List Piece) :
    tokens offset (pieces ++ others) =
      tokens offset pieces ++ tokens (offset + width (pieces.flatMap text)) others := by
  induction pieces generalizing offset with
  | nil => rfl
  | cons p pieces ih =>
    rw [List.cons_append, List.flatMap_cons, width_append, ← Nat.add_assoc]
    cases p with
    | plain c => rw [tokens, tokens, ih, text, width, width, Nat.add_zero]
    | reference r => rw [tokens, tokens, ih, text, List.cons_append]

end Piece

theorem Reference.scan_append_separator {c : Char} (hc : IsSeparator c) (u v : String) :
    scan (u.push c ++ v) =
      scan u ++ (scan v).map (Token.shift (u.push c).utf8ByteSize) := by
  have htext : (u.push c ++ v).toList = u.toList ++ c :: v.toList := by simp
  have hsize : (u.push c).utf8ByteSize = width u.toList + c.utf8Size := by
    rw [String.utf8ByteSize_push, width_toList]
  rw [scan, htext, Piece.split_append_separator hc, Piece.tokens_append, Piece.tokens,
    Piece.flatMap_text_split, Nat.zero_add, ← hsize]
  exact congrArg _ (Piece.tokens_add _ 0 _)

namespace Headers

variable {h : Headers} {c : Char}

theorem displayed_append_separator (hc : IsSeparator c) (u v : List Char) :
    h.displayed (u ++ c :: v) = h.displayed u ++ c :: h.displayed v := by
  rw [displayed, Piece.split_append_separator hc, List.flatMap_append, List.flatMap_cons]
  rfl

theorem substitute_equals (h : Headers) (text : String) :
    h.substitute ("=" ++ text) = String.ofList (h.displayed text.toList) := by
  have hbody : Formula.body ("=" ++ text) = text.toList := by
    rw [Formula.body, String.toList_append]
    rfl
  rw [substitute, hbody, displayed]

theorem substitute_append_separator (h : Headers) (hc : IsSeparator c) (u v : String) :
    h.substitute ("=" ++ (u.push c ++ v)) =
      (h.substitute ("=" ++ u)).push c ++ h.substitute ("=" ++ v) := by
  have htext : (u.push c ++ v).toList = u.toList ++ c :: v.toList := by simp
  rw [substitute_equals, substitute_equals, substitute_equals, htext,
    displayed_append_separator hc, ← String.toList_inj]
  simp

end Headers

/-- Operands, each with the character behind it, in front of a last one. -/
def Formula.joined (operands : List (String × Char)) (last : String) : String :=
  operands.foldr (fun operand rest => operand.1.push operand.2 ++ rest) last

open Formula

theorem Headers.substitute_joined (h : Headers) (operands : List (String × Char)) (last : String)
    (separated : ∀ operand ∈ operands, IsSeparator operand.2) :
    h.substitute ("=" ++ joined operands last) =
      joined (operands.map fun operand => (h.substitute ("=" ++ operand.1), operand.2))
        (h.substitute ("=" ++ last)) := by
  induction operands with
  | nil => rfl
  | cons operand operands ih =>
    obtain ⟨hc, later⟩ := List.forall_mem_cons.mp separated
    rw [joined, List.foldr_cons, h.substitute_append_separator hc]
    exact congrArg _ (ih later)

namespace Reference

/-- Around a character that no reference contains, the tokens are those of the two parts, and the
parts are substituted apart. So operands with such characters between them are substituted one by
one. -/
theorem scan_separated {c : Char} (hc : IsSeparator c) (u v : String) (h : Headers) :
    scan (u.push c ++ v) = scan u ++ (scan v).map (Token.shift (u.push c).utf8ByteSize) ∧
    h.substitute ("=" ++ (u.push c ++ v)) =
      (h.substitute ("=" ++ u)).push c ++ h.substitute ("=" ++ v) ∧
    ∀ operands last, (∀ operand ∈ operands, IsSeparator operand.2) →
      h.substitute ("=" ++ joined operands last) =
        joined (operands.map fun operand => (h.substitute ("=" ++ operand.1), operand.2))
          (h.substitute ("=" ++ last)) :=
  ⟨scan_append_separator hc u v, h.substitute_append_separator hc u v, h.substitute_joined⟩

def priced : Headers := .ofList [(0, "Qty")]

/-- The letters in front of the colon and the digits behind it make no reference. -/
theorem scan_separated_colon :
    scan "é$A$1+AB:22C3" = [⟨2, 6, "A"⟩, ⟨12, 14, "C"⟩] ∧
    priced.substitute "=é$A$1+AB:22C3" = "éQty+AB:22C" := by
  have hcolon : IsSeparator ':' := by simp [IsSeparator]
  have hplus : IsSeparator '+' := by simp [IsSeparator]
  obtain ⟨tokens, -, joins⟩ := scan_separated hcolon "é$A$1+AB" "22C3" priced
  constructor
  · have hu : scan "é$A$1+AB" = [⟨2, 6, "A"⟩] := by cbv
    have hv : scan "22C3" = [⟨2, 4, "C"⟩] := by cbv
    rw [hu, hv] at tokens
    exact tokens
  · have hformula : "=" ++ joined [("é$A$1", '+'), ("AB", ':')] "22C3" = "=é$A$1+AB:22C3" := by
      decide
    have hfirst : priced.substitute ("=" ++ "é$A$1") = "éQty" := by cbv
    have hsecond : priced.substitute ("=" ++ "AB") = "AB" := by cbv
    have hlast : priced.substitute ("=" ++ "22C3") = "22C" := by cbv
    rw [← hformula, joins _ _ (by simp [hplus, hcolon])]
    simp only [List.map_cons, List.map_nil, hfirst, hsecond, hlast]
    decide

end Reference

end FormulaDigest
