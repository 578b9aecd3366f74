import FormulaDigest.Grid
import FormulaDigest.Proofs.Runs

/-!
# Two spellings of a formula

A formula is a list of segments: plain text, references and brackets that hold something else. Open
documents and A1 notation spell the references differently and all the rest alike. Normalizing what
an open document stores gives the A1 spelling, so a sheet does not tell which of the two was stored.
-/
namespace FormulaDigest.OpenFormula

/-- The sheet of a reference, which may have an absolute marker. -/
structure SheetName where
  marked : Bool
  name : List Char
  nonempty : name ≠ []
  plain : ∀ c ∈ name, isBracket c = false ∧ c ≠ ':'
  unmarked : name.head? ≠ some '$'

/-- A cell, a column or a row at one end of a reference. -/
structure Corner where
  sheet : Option SheetName
  cell : List Char
  nonempty : cell ≠ []
  cellChars : ∀ c ∈ cell, isCellChar c = true

/-- A part of a bracket group that is no corner: it has no dot, or no cell behind its last dot. -/
def NoCorner (part : List Char) : Prop :=
  '.' ∉ part ∨ ∃ front back, part = front ++ '.' :: back ∧ '.' ∉ back ∧
    (back = [] ∨ ∃ c ∈ back, isCellChar c = false)

inductive Segment
  | text (cs : List Char) (plain : ∀ c ∈ cs, isBracket c = false)
  | reference (first : Corner) (others : List Corner)
  | group (content : List Char) (nonempty : content ≠ [])
      (plain : ∀ c ∈ content, isBracket c = false)
      (other : ∃ part ∈ content.splitOn ':', NoCorner part)

def SheetName.ods (s : SheetName) : List Char := if s.marked then '$' :: s.name else s.name

namespace Corner

def ods (c : Corner) : List Char :=
  match c.sheet with
  | none => '.' :: c.cell
  | some s => s.ods ++ '.' :: c.cell

def a1 (c : Corner) : List Char :=
  match c.sheet with
  | none => c.cell
  | some s => s.name ++ '!' :: c.cell

end Corner

namespace Segment

/-- The spelling of open documents. -/
def ods : Segment → List Char
  | .text cs _ => cs
  | .reference first others =>
    '[' :: List.intercalate [':'] ((first :: others).map Corner.ods) ++ [']']
  | .group content _ _ _ => '[' :: content ++ [']']

/-- The spelling in A1 notation. -/
def a1 : Segment → List Char
  | .text cs _ => cs
  | .reference first others => List.intercalate [':'] ((first :: others).map Corner.a1)
  | .group content _ _ _ => '[' :: content ++ [']']

end Segment

/-- The namespaces under which open documents store formulas. -/
inductive Scheme
  | of
  | msoxl
  deriving DecidableEq, Repr

def Scheme.text : Scheme → List Char
  | .of => "of:".toList
  | .msoxl => "msoxl:".toList

/-- A formula with the namespace under which an open document stores it. -/
structure Expression where
  scheme : Scheme
  segments : List Segment

namespace Expression

def ods (e : Expression) : String :=
  String.ofList (e.scheme.text ++ '=' :: e.segments.flatMap Segment.ods)

def a1 (e : Expression) : String := String.ofList (e.segments.flatMap Segment.a1)

/-- The A1 spelling is neither blank nor does it look like a formula with a namespace. -/
def Apparent (e : Expression) : Prop :=
  e.a1 ≠ "" ∧ ∀ scheme : Scheme, ¬ scheme.text <+: e.a1.toList

/-- What a slot of a formula grid holds. -/
def stored (spell : Expression → String) : Option Expression → String
  | none => ""
  | some e => spell e

end Expression

section
variable {separator : Char} {cs front back : List Char}

theorem ne_of_mem_reverse (h : separator ∉ cs) :
    ∀ c ∈ cs.reverse, decide (c ≠ separator) = true := by
  intro c hc
  simp only [decide_eq_true_eq]
  rintro rfl
  exact h (List.mem_reverse.mp hc)

theorem splitLast?_of_notMem (h : separator ∉ cs) : splitLast? separator cs = none := by
  have hd : cs.reverse.dropWhile (· ≠ separator) = [] :=
    List.dropWhile_eq_nil_iff.mpr (ne_of_mem_reverse h)
  rw [splitLast?, hd]

/-- The cut is at the last separator. -/
theorem splitLast?_append (h : separator ∉ back) :
    splitLast? separator (front ++ separator :: back) = some (front, back) := by
  have hr : (front ++ separator :: back).reverse = back.reverse ++ separator :: front.reverse := by
    simp
  have inside := ne_of_mem_reverse h
  have ended : ∀ c ∈ (separator :: front.reverse).head?, decide (c ≠ separator) = false := by simp
  rw [splitLast?, hr, dropWhile_run inside ended, takeWhile_run inside ended]
  simp

theorem dot_notMem (h : ∀ c ∈ cs, isCellChar c = true) : '.' ∉ cs := by
  intro hc
  exact absurd (h '.' hc) (by decide)

end

/-- Nothing in a corner ends a bracket group or a part of it. -/
theorem SheetName.plain_ods (s : SheetName) : ∀ x ∈ s.ods, isBracket x = false ∧ x ≠ ':' := by
  intro x hx
  unfold ods at hx
  split at hx
  · rcases List.mem_cons.mp hx with rfl | hx
    · decide
    · exact s.plain x hx
  · exact s.plain x hx

theorem SheetName.dropMark_ods (s : SheetName) : dropMark '$' s.ods = s.name := by
  unfold ods
  split
  · simp [dropMark]
  · have hs := s.unmarked
    cases hn : s.name with
    | nil => rfl
    | cons c cs => simp_all [dropMark]

theorem plain_of_isCellChar {c : Char} (h : isCellChar c = true) :
    isBracket c = false ∧ c ≠ ':' := by
  refine ⟨?_, ?_⟩
  · rw [← Bool.not_eq_true]
    intro hb
    rcases (by simpa [isBracket] using hb : c = '[' ∨ c = ']') with rfl | rfl
    · exact absurd h (by decide)
    · exact absurd h (by decide)
  · rintro rfl
    exact absurd h (by decide)

theorem part?_append (sheet : List Char) {cell : List Char} (hne : cell ≠ [])
    (hc : ∀ c ∈ cell, isCellChar c = true) : part? (sheet ++ '.' :: cell) =
      some (if dropMark '$' sheet = [] then cell else dropMark '$' sheet ++ '!' :: cell) := by
  have accepted : cell ≠ [] ∧ cell.all isCellChar = true := ⟨hne, List.all_eq_true.mpr hc⟩
  rw [part?, splitLast?_append (dot_notMem hc)]
  exact if_pos accepted

namespace Corner
variable (c : Corner)

theorem plain_ods : ∀ x ∈ c.ods, isBracket x = false ∧ x ≠ ':' := by
  have dot : isBracket '.' = false ∧ '.' ≠ ':' := by decide
  have hcell := fun x hx => plain_of_isCellChar (c.cellChars x hx)
  intro x hx
  unfold ods at hx
  split at hx
  case h_1 =>
    rcases List.mem_cons.mp hx with rfl | hx
    · exact dot
    · exact hcell x hx
  case h_2 s _ =>
    rcases List.mem_append.mp hx with hx | hx
    · exact s.plain_ods x hx
    · rcases List.mem_cons.mp hx with rfl | hx
      · exact dot
      · exact hcell x hx

theorem part?_ods : part? c.ods = some c.a1 := by
  cases hs : c.sheet with
  | none =>
    have h := part?_append [] c.nonempty c.cellChars
    simpa [ods, a1, hs, dropMark] using h
  | some s =>
    have h := part?_append s.ods c.nonempty c.cellChars
    simpa [ods, a1, hs, s.dropMark_ods, s.nonempty] using h

theorem mapM_part?_ods (corners : List Corner) :
    (corners.map ods).mapM part? = some (corners.map a1) := by
  induction corners with
  | nil => rfl
  | cons c corners ih => simp [c.part?_ods, ih]

/-- The parts of a reference are found again, since none of them holds a colon. -/
theorem group?_ods {corners : List Corner} (h : corners ≠ []) :
    group? (List.intercalate [':'] (corners.map ods)) =
      some (List.intercalate [':'] (corners.map a1)) := by
  have parts : (List.intercalate [':'] (corners.map ods)).splitOn ':' = corners.map ods := by
    apply List.splitOn_intercalate
    · intro part hp hc
      obtain ⟨c, -, rfl⟩ := List.mem_map.mp hp
      exact (c.plain_ods ':' hc).2 rfl
    · simpa using h
  rw [group?, parts, mapM_part?_ods]
  rfl

theorem plain_intercalate (corners : List Corner) :
    ∀ x ∈ List.intercalate [':'] (corners.map ods), isBracket x = false := by
  induction corners with
  | nil => simp
  | cons c corners ih =>
    intro x hx
    cases corners with
    | nil => exact (c.plain_ods x (by simpa using hx)).1
    | cons d corners =>
      simp only [List.map_cons, List.intercalate_cons_cons, List.mem_append] at hx
      rcases hx with (hx | hx) | hx
      · exact (c.plain_ods x hx).1
      · rw [List.mem_singleton.mp hx]
        decide
      · exact ih x hx

end Corner

theorem NoCorner.part?_eq_none {part : List Char} (h : NoCorner part) : part? part = none := by
  rcases h with h | ⟨front, back, rfl, hdot, h⟩
  · rw [part?, splitLast?_of_notMem h]
    rfl
  · have refused : ¬ (back ≠ [] ∧ back.all isCellChar = true) := by
      rintro ⟨hne, hall⟩
      rcases h with h | ⟨c, hc, hcell⟩
      · exact hne h
      · exact absurd (List.all_eq_true.mp hall c hc) (by simp [hcell])
    rw [part?, splitLast?_append hdot]
    exact if_neg refused

theorem mapM_eq_none {α β : Type} {f : α → Option β} {xs : List α} {x : α} (hx : x ∈ xs)
    (h : f x = none) : xs.mapM f = none := by
  induction xs with
  | nil => simp at hx
  | cons y xs ih =>
    rcases List.mem_cons.mp hx with rfl | hx
    · simp [h]
    · cases hy : f y <;> simp [hy, ih hx]

theorem group?_eq_none {content : List Char} (h : ∃ part ∈ content.splitOn ':', NoCorner part) :
    group? content = none := by
  obtain ⟨part, hp, hnone⟩ := h
  rw [group?, mapM_eq_none hp hnone.part?_eq_none]
  rfl

section
variable {cs content : List Char} (rest : List Char)

theorem content?_append (hne : content ≠ []) (plain : ∀ c ∈ content, isBracket c = false) :
    content? (content ++ ']' :: rest) = some (content, rest) := by
  have inside : ∀ c ∈ content, (!isBracket c) = true := by
    intro c hc
    rw [plain c hc]
    rfl
  have ended : ∀ c ∈ (']' :: rest).head?, (!isBracket c) = false := by
    rintro c ⟨⟩
    decide
  rw [content?, dropWhile_run inside ended, takeWhile_run inside ended]
  exact if_neg hne

theorem unbracket_text (plain : ∀ c ∈ cs, isBracket c = false) :
    unbracket (cs ++ rest) = cs ++ unbracket rest := by
  induction cs with
  | nil => rfl
  | cons c cs ih =>
    have hc : c ≠ '[' := by
      rintro rfl
      exact absurd (plain '[' List.mem_cons_self) (by decide)
    rw [List.cons_append, unbracket, if_neg hc, ih fun c hc => plain c (List.mem_cons_of_mem _ hc),
      List.cons_append]

theorem unbracket_brackets (hne : content ≠ []) (plain : ∀ c ∈ content, isBracket c = false) :
    unbracket ('[' :: (content ++ ']' :: rest)) =
      (group? content).getD ('[' :: content ++ [']']) ++ unbracket rest := by
  rw [unbracket, if_pos rfl]
  split
  case h_1 found rest' h =>
    rw [content?_append rest hne plain] at h
    obtain ⟨rfl, rfl⟩ := Prod.mk.inj (Option.some.inj h)
    rfl
  case h_2 h => simp [content?_append rest hne plain] at h

/-- A segment is written in A1 notation whatever follows it. -/
theorem unbracket_segment (s : Segment) :
    unbracket (s.ods ++ rest) = s.a1 ++ unbracket rest := by
  cases s with
  | text cs plain => exact unbracket_text rest plain
  | reference first others =>
    -- Brackets around nothing are no group, but a reference is not empty.
    have hne : List.intercalate [':'] ((first :: others).map Corner.ods) ≠ [] := by
      intro h
      have hg := Corner.group?_ods (List.cons_ne_nil first others)
      rw [h, group?_eq_none ⟨[], by simp, .inl (by simp)⟩] at hg
      cases hg
    have hb := unbracket_brackets rest hne (Corner.plain_intercalate _)
    rw [Corner.group?_ods (List.cons_ne_nil first others)] at hb
    simpa [Segment.ods, Segment.a1] using hb
  | group content hne plain other =>
    have hb := unbracket_brackets rest hne plain
    rw [group?_eq_none other] at hb
    simpa [Segment.ods, Segment.a1] using hb

end

theorem unbracket_segments (segments : List Segment) :
    unbracket (segments.flatMap Segment.ods) = segments.flatMap Segment.a1 := by
  induction segments with
  | nil => rw [List.flatMap_nil, unbracket, List.flatMap_nil]
  | cons s segments ih => rw [List.flatMap_cons, unbracket_segment, ih, List.flatMap_cons]

theorem namespaced?_text (scheme : Scheme) (cs : List Char) :
    namespaced? (scheme.text ++ cs) = some cs := by
  cases scheme <;> rfl

theorem namespaced?_eq_none {cs : List Char} (h : ∀ scheme : Scheme, ¬ scheme.text <+: cs) :
    namespaced? cs = none := by
  unfold namespaced?
  split
  case h_1 cs => exact absurd (List.prefix_append _ cs) (h .of)
  case h_2 cs => exact absurd (List.prefix_append _ cs) (h .msoxl)
  case h_3 => rfl

namespace Expression
variable (e : Expression)

theorem normalize_ods : normalize e.ods = e.a1 := by
  rw [normalize, ods, String.toList_ofList, namespaced?_text]
  simp only [dropMark, if_pos]
  rw [unbracket_segments, a1]

theorem ods_ne_empty : e.ods ≠ "" := by
  intro h
  have hl := congrArg String.toList h
  rw [ods, String.toList_ofList] at hl
  simp at hl

theorem Apparent.normalize_a1 {e : Expression} (h : e.Apparent) : normalize e.a1 = e.a1 := by
  rw [normalize, namespaced?_eq_none h.2]

end Expression

end FormulaDigest.OpenFormula

namespace FormulaDigest

/-- The grid of the same place and extent with every slot changed. -/
def Grid.map {α β : Type} (f : α → β) (g : Grid α) : Grid β := ⟨g.origin, g.rows.map (·.map f)⟩

theorem Grid.slots_map {α β : Type} (f : α → β) (g : Grid α) :
    (g.map f).slots = g.slots.map fun slot => (slot.1, f slot.2) := by
  simp only [slots, map, List.zipIdx_map, List.flatMap_map, List.map_flatMap, List.map_map,
    Prod.map_fst, Prod.map_snd, id]
  rfl

namespace Sheet
open OpenFormula

/-- Sets the formula of one slot in A1 notation, if the slot holds one. -/
def addExpression (s : Sheet) (slot : Position × Option Expression) : Sheet :=
  match slot.2 with
  | none => s
  | some e => s.setFormula slot.1 e.a1

theorem addFormula_ods (s : Sheet) (slot : Position × Option Expression) :
    s.addFormula (slot.1, Expression.stored Expression.ods slot.2) = s.addExpression slot := by
  obtain ⟨p, _ | e⟩ := slot
  · rfl
  · simp [addFormula, addExpression, Expression.stored, e.ods_ne_empty, e.normalize_ods]

theorem addFormula_a1 (s : Sheet) {slot : Position × Option Expression}
    (h : ∀ e ∈ slot.2, e.Apparent) :
    s.addFormula (slot.1, Expression.stored Expression.a1 slot.2) = s.addExpression slot := by
  obtain ⟨p, _ | e⟩ := slot
  · rfl
  · have he : e.Apparent := h e rfl
    simp [addFormula, addExpression, Expression.stored, he.1, he.normalize_a1]

theorem ofGrids_ods (name : String) (values : Grid Datum) (formulas : Grid (Option Expression)) :
    ofGrids name values (formulas.map (Expression.stored Expression.ods)) =
      formulas.slots.foldl addExpression (values.slots.foldl addDatum (empty name)) := by
  rw [ofGrids, Grid.slots_map, List.foldl_map]
  simp only [addFormula_ods]

theorem ofGrids_a1 (name : String) (values : Grid Datum) {formulas : Grid (Option Expression)}
    (h : ∀ slot ∈ formulas.slots, ∀ e ∈ slot.2, e.Apparent) :
    ofGrids name values (formulas.map (Expression.stored Expression.a1)) =
      formulas.slots.foldl addExpression (values.slots.foldl addDatum (empty name)) := by
  rw [ofGrids, Grid.slots_map, List.foldl_map]
  exact List.foldl_ext _ _ _ fun s slot hslot => addFormula_a1 s (h slot hslot)

/-- Normalizing recovers the A1 spelling of every formula. So a sheet read from an open document
holds the formulas in A1 notation, and it is the sheet that this notation itself would give wherever
each formula can be seen in it. -/
theorem ofGrids_spellings (name : String) (values : Grid Datum)
    (formulas : Grid (Option Expression)) :
    (∀ e : Expression, normalize e.ods = e.a1) ∧
      ofGrids name values (formulas.map (Expression.stored Expression.ods)) =
        formulas.slots.foldl addExpression (values.slots.foldl addDatum (empty name)) ∧
      ((∀ slot ∈ formulas.slots, ∀ e ∈ slot.2, e.Apparent) →
        ofGrids name values (formulas.map (Expression.stored Expression.ods)) =
          ofGrids name values (formulas.map (Expression.stored Expression.a1))) := by
  refine ⟨Expression.normalize_ods, ofGrids_ods name values formulas, fun h => ?_⟩
  rw [ofGrids_ods, ofGrids_a1 name values h]

/-- A range on a quoted sheet, a bracket that is no reference and a cell of the same sheet. -/
def quarter : Expression where
  scheme := .of
  segments :=
    [.text "SUM(".toList (by simp [isBracket]),
      .reference ⟨some ⟨true, "'Q.1'".toList, by decide, by simp [isBracket], by decide⟩,
        "$A$1".toList, by decide, List.all_eq_true.mp (by decide)⟩
        [⟨none, "B2".toList, by decide, List.all_eq_true.mp (by decide)⟩],
      .text ")&".toList (by simp [isBracket]),
      .group "x.".toList (by decide) (by simp [isBracket])
        ⟨"x.".toList, by decide, .inr ⟨['x'], [], rfl, by decide, .inl rfl⟩⟩,
      .reference ⟨none, "C3".toList, by decide, List.all_eq_true.mp (by decide)⟩ []]

theorem ofGrids_spellings_quarter :
    quarter.Apparent ∧
      ofGrids "Q" ⟨⟨0, 1⟩, [[.integer 3], [.text "t"]]⟩
          ⟨⟨1, 0⟩, [["", "of:=SUM([$'Q.1'.$A$1:.B2])&[x.][.C3]"]]⟩ =
        ofGrids "Q" ⟨⟨0, 1⟩, [[.integer 3], [.text "t"]]⟩
          ⟨⟨1, 0⟩, [["", "SUM('Q.1'!$A$1:B2)&[x.]C3"]]⟩ := by
  have apparent : quarter.Apparent := by
    refine ⟨by decide, fun scheme => ?_⟩
    cases scheme <;> decide
  have everywhere : ∀ slot ∈ (⟨⟨1, 0⟩, [[none, some quarter]]⟩ : Grid (Option Expression)).slots,
      ∀ e ∈ slot.2, e.Apparent := by
    simpa [Grid.slots] using apparent
  exact ⟨apparent, (ofGrids_spellings "Q" ⟨⟨0, 1⟩, [[.integer 3], [.text "t"]]⟩
    ⟨⟨1, 0⟩, [[none, some quarter]]⟩).2.2 everywhere⟩

end Sheet

end FormulaDigest
