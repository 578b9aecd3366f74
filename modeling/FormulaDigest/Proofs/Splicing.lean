import FormulaDigest.Proofs.Idempotence

/-!
# Splicing at the spans of a scanner

A scanner is asked once, for the body of a formula, and answers with spans counted in bytes. If
these lie in the body, in order and between characters, then every part that is copied exists: what
lies between the spans stays, each span gives way to what stands for its letters, and nothing that
was put in is searched. The search for references answers with such spans for every text.
-/
namespace FormulaDigest

namespace Utf8

variable {front cs : List Char} {n : Nat}

/-- A character of a text starts at a byte offset, or the text ends there. -/
def IsBoundary (cs : List Char) (n : Nat) : Prop :=
  ∃ front back, front ++ back = cs ∧ n = width front

theorem IsBoundary.exists_append (h : IsBoundary (front ++ cs) n) (hn : width front ≤ n) :
    ∃ part back, cs = part ++ back ∧ n = width (front ++ part) := by
  obtain ⟨whole, back, happend, rfl⟩ := h
  obtain ⟨part, rfl, rfl⟩ := exists_append_of_width_le happend hn
  exact ⟨part, back, rfl, rfl⟩

end Utf8

open Utf8

/-- Spans of a text as a scanner has to answer them: none runs backwards, each one starts and ends
between characters, and no one starts before the end of the one in front of it. -/
structure Token.InOrder (cs : List Char) (tokens : List Token) : Prop where
  forward : ∀ t ∈ tokens, t.start ≤ t.stop
  start_boundary : ∀ t ∈ tokens, IsBoundary cs t.start
  stop_boundary : ∀ t ∈ tokens, IsBoundary cs t.stop
  apart : tokens.IsChain fun t u => t.stop ≤ u.start

theorem Token.InOrder.tail {cs : List Char} {t : Token} {tokens : List Token}
    (order : InOrder cs (t :: tokens)) : InOrder cs tokens where
  forward u hu := order.forward u (List.mem_cons_of_mem _ hu)
  start_boundary u hu := order.start_boundary u (List.mem_cons_of_mem _ hu)
  stop_boundary u hu := order.stop_boundary u (List.mem_cons_of_mem _ hu)
  apart := (List.isChain_cons.mp order.apart).2

namespace Headers

variable {h : Headers} {letters shown : String} {offset : Nat} {cs out out' : List Char}
  {tokens : List Token}

/-- What stands for column letters: the header of their column, or the letters themselves where no
header is to be shown. -/
inductive Shows (h : Headers) (letters : String) : String → Prop
  | header {column : Nat} {name : String} (decoded : Column.ofName? letters = some column)
      (named : h.get? column = some name) (nonempty : name ≠ "") : Shows h letters name
  | letters (unnamed : ∀ column name, Column.ofName? letters = some column →
      h.get? column = some name → name = "") : Shows h letters letters

/-- A text with tokens becomes another one: what lies before, between and behind the spans is kept,
and each span gives way to what stands for its letters. The text stands behind `offset` bytes. -/
inductive Replaces (h : Headers) : Nat → List Char → List Token → List Char → Prop
  | keep (offset : Nat) (cs : List Char) : Replaces h offset cs [] cs
  | replace {offset : Nat} {gap span cs out : List Char} {t : Token} {tokens : List Token}
      {shown : String} (start : t.start = offset + width gap)
      (stop : t.stop = offset + width (gap ++ span)) (shows : h.Shows t.letters shown)
      (rest : Replaces h t.stop cs tokens out) :
      Replaces h offset (gap ++ span ++ cs) (t :: tokens) (gap ++ shown.toList ++ out)

theorem shows_display (h : Headers) (letters : String) : h.Shows letters (h.display letters) := by
  unfold display
  split
  next name hname =>
    obtain ⟨column, decoded, named⟩ := Option.bind_eq_some_iff.mp hname
    split
    next empty =>
      refine .letters fun column' name' decoded' named' => ?_
      obtain rfl : column = column' := Option.some.inj (decoded.symm.trans decoded')
      obtain rfl : name = name' := Option.some.inj (named.symm.trans named')
      exact empty
    next nonempty => exact .header decoded named nonempty
  next hnone =>
    refine .letters fun column name decoded named => ?_
    rw [decoded, Option.bind_some, named] at hnone
    cases hnone

theorem Shows.eq_display (hs : h.Shows letters shown) : shown = h.display letters := by
  cases hs with
  | header decoded named nonempty =>
    simp only [display, decoded, Option.bind_some, named, if_neg nonempty]
  | letters unnamed =>
    unfold display
    split
    next name hname =>
      obtain ⟨column, decoded, named⟩ := Option.bind_eq_some_iff.mp hname
      rw [if_pos (unnamed column name decoded named)]
    next => rfl

/-- Splicing behind a text of `offset` bytes finds every part that it copies. -/
theorem Replaces.splice? (hr : h.Replaces offset cs tokens out) (front : List Char)
    (hf : width front = offset) : Scanner.splice? h.display (front ++ cs) offset tokens = some out := by
  induction hr generalizing front with
  | keep offset cs =>
    have hslice := slice?_width front cs []
    rw [List.append_nil] at hslice
    rw [Scanner.splice?, ← hf, hslice]
  | @replace offset gap span cs out t tokens shown start stop shows rest ih =>
    have hstart : t.start = width (front ++ gap) := by rw [start, width_append, hf]
    have hstop : width (front ++ gap ++ span) = t.stop := by
      rw [stop, List.append_assoc, width_append, hf]
    have hgap := slice?_width front gap (span ++ cs)
    have hrest := ih (front ++ gap ++ span) hstop
    simp only [List.append_assoc] at hgap hrest ⊢
    rw [Scanner.splice?, ← hf, hstart, hgap, hrest, shows.eq_display]
    simp

/-- Spans that are in order behind a text of `offset` bytes can be replaced one by one. -/
theorem exists_replaces (h : Headers) (front cs : List Char) {tokens : List Token}
    (order : Token.InOrder (front ++ cs) tokens)
    (behind : ∀ t ∈ tokens.head?, width front ≤ t.start) :
    ∃ out, h.Replaces (width front) cs tokens out := by
  -- On the tokens to come; `front` is what the spans so far and the gaps before them cover.
  induction tokens generalizing front cs with
  | nil => exact ⟨cs, .keep _ cs⟩
  | cons t tokens ih =>
    have mem : t ∈ t :: tokens := List.mem_cons_self
    obtain ⟨gap, cs, rfl, hstart⟩ :=
      (order.start_boundary t mem).exists_append (behind t rfl)
    have hforward : width (front ++ gap) ≤ t.stop := hstart ▸ order.forward t mem
    rw [← List.append_assoc] at order
    obtain ⟨span, cs, rfl, hstop⟩ := (order.stop_boundary t mem).exists_append hforward
    rw [← List.append_assoc] at order
    have apart : ∀ u ∈ tokens.head?, width (front ++ gap ++ span) ≤ u.start :=
      hstop ▸ (List.isChain_cons.mp order.apart).1
    obtain ⟨out, rest⟩ := ih (front ++ gap ++ span) cs order.tail apart
    have start : t.start = width front + width gap := by rw [hstart, width_append]
    have stop : t.stop = width front + width (gap ++ span) := by
      rw [hstop, List.append_assoc, width_append]
    rw [← hstop] at rest
    rw [← List.append_assoc]
    exact ⟨_, .replace start stop (h.shows_display t.letters) rest⟩

/-- One more character in front of the first span is kept. -/
theorem Replaces.cons {c : Char} (hr : h.Replaces (offset + c.utf8Size) cs tokens out) :
    h.Replaces offset (c :: cs) tokens (c :: out) := by
  cases hr with
  | keep => exact .keep offset (c :: cs)
  | @replace _ gap span cs out t tokens shown start stop shows rest =>
    have start' : t.start = offset + width (c :: gap) := by rw [start, width, Nat.add_assoc]
    have stop' : t.stop = offset + width (c :: gap ++ span) := by
      rw [stop, List.cons_append, width, Nat.add_assoc]
    exact .replace start' stop' shows rest

/-- Replacing the references of a text is replacing the spans that the search finds. -/
theorem replaces_tokens (h : Headers) (offset : Nat) (cs : List Char) :
    h.Replaces offset cs (Piece.tokens offset (Piece.split cs)) (h.displayed cs) := by
  fun_induction Piece.split cs generalizing offset with
  | case1 =>
    rw [displayed_nil, Piece.tokens]
    exact .keep offset []
  | case2 c cs r rest hread ih =>
    obtain ⟨-, -, hcs⟩ := Reference.read?_eq_some_iff.mp hread
    rw [displayed_reference hread, Piece.tokens, ← hcs]
    exact @Replaces.replace h offset [] r.text rest _ _ _ _ rfl rfl (h.shows_display _) (ih _)
  | case3 c cs hread ih =>
    rw [displayed_plain hread, Piece.tokens]
    exact (ih _).cons

end Headers

theorem Reference.inOrder_scan (text : String) : Token.InOrder text.toList (scan text) := by
  have hd : Decomposes 0 text.toList (scan text) := (decomposes_iff text.toList).mpr rfl
  refine ⟨fun t ht => (hd.spans t ht).start_lt_stop.le, ?_, ?_, hd.apart.isChain⟩
  · intro t ht
    obtain ⟨before, r, after, hcs, -, -, rfl⟩ := hd.spans t ht
    exact ⟨before, r.text ++ after, by rw [← hcs, List.append_assoc], Nat.zero_add _⟩
  · intro t ht
    obtain ⟨before, r, after, hcs, -, -, rfl⟩ := hd.spans t ht
    exact ⟨before ++ r.text, after, hcs, Nat.zero_add _⟩

namespace Scanner

variable {scan : Scanner} {h : Headers} {formula : String} {out : List Char}

theorem substitute?_of_replaces (hr : h.Replaces 0 (Formula.body formula)
    (scan (String.ofList (Formula.body formula))) out) :
    scan.substitute? h formula = some (String.ofList out) := by
  rw [substitute?]
  exact congrArg _ (hr.splice? [] rfl)

/-- If a scanner answers for the body of a formula with spans in order, the substitution has a
result, and this is the body with each span replaced, and no other text. It depends on the scanner
by that one answer alone. The search for references always answers so, and substituting with it is
substituting references. -/
theorem substitute?_replaces (scan : Scanner) (h : Headers) (formula : String) :
    (Token.InOrder (Formula.body formula) (scan (String.ofList (Formula.body formula))) →
      ∃ out, scan.substitute? h formula = some (String.ofList out) ∧
        ∀ other, h.Replaces 0 (Formula.body formula)
          (scan (String.ofList (Formula.body formula))) other ↔ other = out) ∧
    (∀ other : Scanner, other (String.ofList (Formula.body formula)) =
      scan (String.ofList (Formula.body formula)) →
        other.substitute? h formula = scan.substitute? h formula) ∧
    (∀ text, Token.InOrder text.toList (Reference.scan text)) ∧
    substitute? Reference.scan h formula = some (h.substitute formula) := by
  refine ⟨fun order => ?_, fun other same => ?_, Reference.inOrder_scan, ?_⟩
  · obtain ⟨out, hr⟩ := h.exists_replaces [] (Formula.body formula) order (fun _ _ => Nat.zero_le _)
    refine ⟨out, substitute?_of_replaces hr, fun other => ⟨fun ho => ?_, fun ho => ho ▸ hr⟩⟩
    exact Option.some.inj ((ho.splice? [] rfl).symm.trans (hr.splice? [] rfl))
  · rw [substitute?, substitute?, same]
  · apply substitute?_of_replaces
    rw [Reference.scan, String.toList_ofList]
    exact h.replaces_tokens 0 (Formula.body formula)

/-- Answers with an empty span, two spans that touch, and letters that name no column. -/
def marks : Scanner := fun _ => [⟨0, 0, "A"⟩, ⟨3, 5, "a"⟩, ⟨5, 7, "B"⟩, ⟨7, 8, "?"⟩]

def quarterly : Headers := .ofList [(0, "Q1"), (1, "")]

theorem inOrder_marks : Token.InOrder "é+A1B2$".toList (marks "é+A1B2$") := by
  have cut (n : Nat) : IsBoundary "é+A1B2$".toList (width ("é+A1B2$".toList.take n)) :=
    ⟨_, _, List.take_append_drop n _, rfl⟩
  refine ⟨by simp [marks], ?_, ?_, by simp [marks]⟩
  · simp only [marks, List.forall_mem_cons]
    exact ⟨cut 0, cut 2, cut 4, cut 6, by simp⟩
  · simp only [marks, List.forall_mem_cons]
    exact ⟨cut 0, cut 4, cut 6, cut 7, by simp⟩

/-- A header that looks like a reference is put in twice and not searched. -/
theorem substitute?_replaces_marks :
    marks.substitute? quarterly "=é+A1B2$" = some "Q1é+Q1B?" ∧
    quarterly.Replaces 0 "é+A1B2$".toList (marks "é+A1B2$") "Q1é+Q1B?".toList := by
  have hbody : Formula.body "=é+A1B2$" = "é+A1B2$".toList := by decide
  have hout : marks.substitute? quarterly "=é+A1B2$" = some "Q1é+Q1B?" := by cbv
  obtain ⟨found, -⟩ := substitute?_replaces marks quarterly "=é+A1B2$"
  rw [hbody, String.ofList_toList] at found
  obtain ⟨out, hsome, hr⟩ := found inOrder_marks
  refine ⟨hout, (hr _).mpr ?_⟩
  rw [hout, Option.some.injEq] at hsome
  rw [hsome, String.toList_ofList]

end Scanner

end FormulaDigest
