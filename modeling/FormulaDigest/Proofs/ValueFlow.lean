import FormulaDigest.Proofs.Traversal

/-!
# Where the values of a sheet go

A value reaches a record as a header of the first row and in no other way. So two sheets that
differ in values alone are accepted or refused alike, their records stand at the same addresses,
and a record differs only with the header of its own column or of a column that its formula names.
-/
namespace FormulaDigest

/-- A reference in a formula has the letters of a column. -/
def Formula.Names (formula : String) (column : Nat) : Prop :=
  ∃ t ∈ Reference.scan (String.ofList (body formula)), Column.ofName? t.letters = some column

theorem Piece.exists_token_of_mem {pieces : List Piece} {r : Reference} (h : .reference r ∈ pieces)
    (offset : Nat) : ∃ t ∈ tokens offset pieces, t.letters = String.ofList r.letters := by
  induction pieces generalizing offset with
  | nil => cases h
  | cons piece pieces ih =>
    rcases List.mem_cons.mp h with rfl | later
    · exact ⟨_, List.mem_cons_self, rfl⟩
    · cases piece with
      | plain c => exact ih later (offset + c.utf8Size)
      | reference first =>
        obtain ⟨t, ht, letters⟩ := ih later (offset + Utf8.width first.text)
        exact ⟨t, List.mem_cons_of_mem _ ht, letters⟩

namespace Headers

variable {h h' : Headers} {formula : String}

theorem display_congr {letters : String}
    (agree : ∀ column, Column.ofName? letters = some column → h.get? column = h'.get? column) :
    h.display letters = h'.display letters := by
  unfold display
  cases named : Column.ofName? letters with
  | none => rfl
  | some column => rw [Option.bind_some, Option.bind_some, agree column named]

/-- Only the headers of the columns that it names can change a formula. -/
theorem substitute_congr
    (agree : ∀ column, Formula.Names formula column → h.get? column = h'.get? column) :
    h.substitute formula = h'.substitute formula := by
  unfold substitute
  congr 1
  refine List.flatMap_congr fun piece hp => ?_
  cases piece with
  | plain c => rfl
  | reference r =>
    have named : h.display (String.ofList r.letters) = h'.display (String.ofList r.letters) := by
      refine display_congr fun column hc => agree column ?_
      obtain ⟨t, ht, letters⟩ := Piece.exists_token_of_mem hp 0
      refine ⟨t, ?_, by rw [letters, hc]⟩
      rwa [Reference.scan, String.toList_ofList]
    rw [displayPiece, displayPiece, named]

/-- The headers of a sheet come from its range and the values of its first row. -/
theorem resolve_congr {s t : Sheet} (range : s.range = t.range)
    (first : ∀ column, (s.cell? ⟨0, column⟩).bind Cell.value =
      (t.cell? ⟨0, column⟩).bind Cell.value) : resolve s = resolve t := by
  have names : columnName s = columnName t := by
    funext column
    rw [columnName, columnName, first]
  rw [resolve, resolve, range, names]

end Headers

/-- What a cell is apart from its value. -/
def Cell.outline (c : Cell) : Position × Option String := (c.position, c.formula)

namespace Sheet

/-- The same sheet with other values: every key holds a cell in both or in neither, and the two
cells agree in position and formula. -/
structure SameOutline (s t : Sheet) : Prop where
  name : s.name = t.name
  range : s.range = t.range
  cells : ∀ key : Position, s.cells[key]?.map Cell.outline = t.cells[key]?.map Cell.outline

/-- Records of one place. They are equal where the two sheets have the same headers for the column
of the cell and for every column that its formula names. -/
structure Corresponds (s t : Sheet) (r r' : Record) : Prop where
  sheet : r.sheet = r'.sheet
  address : r.address = r'.address
  text : ∃ (c : Cell) (formula : String), s.cells[c.position]? = some c ∧
    c.formula = some formula ∧ r.address = c.position.a1 ∧
    ((∀ column, column = c.position.column ∨ Formula.Names formula column →
      (Headers.resolve s).get? column = (Headers.resolve t).get? column) → r = r')

namespace SameOutline

variable {s t : Sheet}

theorem symm (same : s.SameOutline t) : t.SameOutline s :=
  ⟨same.name.symm, same.range.symm, fun key => (same.cells key).symm⟩

theorem exists_cell (same : s.SameOutline t) {key : Position} {c : Cell}
    (hc : s.cells[key]? = some c) :
    ∃ d, t.cells[key]? = some d ∧ d.position = c.position ∧ d.formula = c.formula := by
  have outline := same.cells key
  rw [hc, Option.map_some, eq_comm, Option.map_eq_some_iff] at outline
  obtain ⟨d, hd, he⟩ := outline
  rw [Cell.outline, Cell.outline, Prod.mk.injEq] at he
  exact ⟨d, hd, he⟩

theorem fits (same : s.SameOutline t) {r : Range} (h : s.Fits r) : t.Fits r := by
  intro key d hd
  obtain ⟨c, hc, position, -⟩ := same.symm.exists_cell hd
  rw [← position]
  exact h key c hc

theorem cells_eq_empty (same : s.SameOutline t) (h : s.cells = ∅) : t.cells = ∅ := by
  apply Std.ExtTreeMap.ext_getElem?
  intro key
  have outline := same.cells key
  rw [h] at outline
  simpa using outline.symm

theorem consistent (same : s.SameOutline t) (h : s.Consistent) : t.Consistent := by
  rcases h with ⟨range, cells⟩ | ⟨r, range, wellFormed, fits⟩
  · exact .inl ⟨same.range ▸ range, same.cells_eq_empty cells⟩
  · exact .inr ⟨r, same.range ▸ range, wellFormed, same.fits fits⟩

/-- Values do not decide whether a sheet is accepted. -/
theorem accepted_iff (same : s.SameOutline t) :
    (∃ rs, s.records = .ok rs) ↔ ∃ rs, t.records = .ok rs := by
  have accepted (u : Sheet) : (∃ rs, u.records = .ok rs) ↔ u.Consistent := by
    simp only [records, extract_eq_ok_iff, exists_and_left, exists_eq, and_true]
  rw [accepted, accepted]
  exact ⟨same.consistent, same.symm.consistent⟩

/-- At each position both sheets have a record or neither has. -/
theorem recordAt?_rel (same : s.SameOutline t) {r : Range} (fits : s.Fits r) (p : Position) :
    Option.Rel (s.Corresponds t)
      (s.recordAt? (.resolve s) (fun formula h => h.substitute formula) p)
      (t.recordAt? (.resolve t) (fun formula h => h.substitute formula) p) := by
  unfold recordAt? cell?
  cases hc : s.cells[p]? with
  | none =>
    have hd := same.cells p
    rw [hc, Option.map_none, eq_comm, Option.map_eq_none_iff] at hd
    rw [hd]
    exact .none
  | some c =>
    obtain ⟨d, hd, -, formula⟩ := same.exists_cell hc
    obtain rfl := (fits p c hc).1
    simp only [hd, Option.bind_eq_bind, Option.bind_some, formula]
    cases hf : c.formula with
    | none => exact .none
    | some text =>
      refine .some ⟨same.name, rfl, c, text, hc, hf, rfl, fun agree => ?_⟩
      have own := agree c.position.column (.inl rfl)
      have named := Headers.substitute_congr fun column hn => agree column (.inr hn)
      rw [own, named, same.name]

/-- The walks over two such sheets yield corresponding records. -/
theorem forall₂_corresponds (same : s.SameOutline t) {rs rs' : List Record}
    (ok : s.records = .ok rs) (ok' : t.records = .ok rs') :
    List.Forall₂ (s.Corresponds t) rs rs' := by
  obtain ⟨consistent, rfl⟩ := extract_eq_ok_iff.mp ok
  obtain ⟨-, rfl⟩ := extract_eq_ok_iff.mp ok'
  rcases consistent with ⟨-, cells⟩ | ⟨r, -, -, fits⟩
  · have none_stored : s.formulaCells = [] := by rw [formulaCells, cells]; rfl
    have none_stored' : t.formulaCells = [] := by
      rw [formulaCells, same.cells_eq_empty cells]; rfl
    rw [none_stored, none_stored']
    exact .nil
  · rw [← fits.recordsIn_eq, ← (same.fits fits).recordsIn_eq, recordsIn_eq_filterMap,
      recordsIn_eq_filterMap]
    refine List.rel_filterMap ?_ (List.forall₂_same.mpr fun p _ => rfl)
    rintro p _ rfl
    exact same.recordAt?_rel fits p

/-- With the same values in the first row the records do not differ at all. -/
theorem records_eq (same : s.SameOutline t)
    (first : ∀ column, (s.cell? ⟨0, column⟩).bind Cell.value =
      (t.cell? ⟨0, column⟩).bind Cell.value)
    {rs : List Record} (ok : s.records = .ok rs) : t.records = .ok rs := by
  obtain ⟨rs', ok'⟩ := same.accepted_iff.mp ⟨rs, ok⟩
  have headers : Headers.resolve s = Headers.resolve t := Headers.resolve_congr same.range first
  have equal : List.Forall₂ Eq rs rs' := by
    refine (same.forall₂_corresponds ok ok').imp fun r r' corresponds => ?_
    obtain ⟨c, formula, -, -, -, text⟩ := corresponds.text
    exact text fun column _ => by rw [headers]
  rw [List.forall₂_eq_eq_eq] at equal
  rwa [equal]

end SameOutline

/-- Two sheets that differ in values alone are both accepted or both refused. Their records
correspond one by one, and where the first rows hold the same values they are the same. -/
theorem records_of_sameOutline {s t : Sheet} (same : s.SameOutline t) :
    ((∃ rs, s.records = .ok rs) ↔ ∃ rs, t.records = .ok rs) ∧
    (∀ rs rs', s.records = .ok rs → t.records = .ok rs' →
      List.Forall₂ (s.Corresponds t) rs rs') ∧
    ((∀ column, (s.cell? ⟨0, column⟩).bind Cell.value = (t.cell? ⟨0, column⟩).bind Cell.value) →
      ∀ rs, s.records = .ok rs ↔ t.records = .ok rs) := by
  refine ⟨same.accepted_iff, fun rs rs' => same.forall₂_corresponds, fun first rs => ?_⟩
  exact ⟨same.records_eq first, same.symm.records_eq fun column => (first column).symm⟩

/-- One header and one value below it are open. -/
def ledger (header : String) (paid : Bool) : Sheet :=
  ((((empty "Data").insert ⟨⟨0, 0⟩, some (.text "Price"), none⟩).insert
    ⟨⟨0, 1⟩, some (.text header), none⟩).insert
    ⟨⟨1, 0⟩, some (.boolean paid), some "=A1*2"⟩).insert ⟨⟨2, 1⟩, none, some "=$A2+B$1"⟩

theorem sameOutline_ledger (header header' : String) (paid paid' : Bool) :
    (ledger header paid).SameOutline (ledger header' paid') where
  name := rfl
  range := rfl
  cells := by
    intro key
    simp only [ledger, cells_insert]
    split_ifs <;> rfl

/-- The second header changes the record that shows it, and the value below changes none. -/
theorem records_of_sameOutline_ledger :
    (ledger "Qty" true).records =
      .ok [⟨"Data", "A2", "Price", "Price*2"⟩, ⟨"Data", "B3", "Qty", "Price+Qty"⟩] ∧
    (ledger "Qty" false).records =
      .ok [⟨"Data", "A2", "Price", "Price*2"⟩, ⟨"Data", "B3", "Qty", "Price+Qty"⟩] ∧
    ∃ rs, (ledger "Sum" false).records = .ok rs ∧
      List.Forall₂ ((ledger "Qty" true).Corresponds (ledger "Sum" false))
        [⟨"Data", "A2", "Price", "Price*2"⟩, ⟨"Data", "B3", "Qty", "Price+Qty"⟩] rs := by
  have ok : (ledger "Qty" true).records =
      .ok [⟨"Data", "A2", "Price", "Price*2"⟩, ⟨"Data", "B3", "Qty", "Price+Qty"⟩] := by cbv
  obtain ⟨-, -, unread⟩ := records_of_sameOutline (sameOutline_ledger "Qty" "Qty" true false)
  obtain ⟨accepted, records, -⟩ :=
    records_of_sameOutline (sameOutline_ledger "Qty" "Sum" true false)
  obtain ⟨rs, ok'⟩ := accepted.mp ⟨_, ok⟩
  refine ⟨ok, (unread fun column => ?_) _ |>.mp ok, rs, ok', records _ rs ok ok'⟩
  simp only [ledger, cell?, cells_insert]
  split_ifs <;> simp_all

end Sheet

end FormulaDigest
