import FormulaDigest.Proofs.Grouping
import FormulaDigest.WorkbookFile

/-!
# Sheets built by writes

A reader builds a sheet from nothing by storing cells and by giving stored cells a formula. After
any number of such writes each cell stands under its own position, and the range, which only ever
grew by one cell, is the smallest one around all of them. So the sheet is determined by what the
writes leave at each position, it never contradicts itself, and a workbook of such sheets can only
be refused for its sheet names.
-/
namespace FormulaDigest

namespace Range

/-- Every side of the first range is inside the other one. -/
def Within (r outer : Range) : Prop :=
  (outer.first.row ≤ r.first.row ∧ r.last.row ≤ outer.last.row) ∧
    outer.first.column ≤ r.first.column ∧ r.last.column ≤ outer.last.column

/-- The smallest range around the positions that are occupied. -/
structure Bounds (r : Range) (occupied : Position → Prop) : Prop where
  covers : ∀ p, occupied p → p ∈ r
  least : ∀ outer : Range, (∀ p, occupied p → p ∈ outer) → r.Within outer

variable {r r' : Range} {occupied occupied' : Position → Prop} {p : Position}

theorem Within.antisymm (h : r.Within r') (h' : r'.Within r) : r = r' := by
  obtain ⟨⟨a, b⟩, ⟨c, d⟩⟩ := r
  obtain ⟨⟨a', b'⟩, ⟨c', d'⟩⟩ := r'
  simp only [Within] at h h'
  simp only [mk.injEq, Position.mk.injEq]
  omega

theorem Bounds.unique (h : r.Bounds occupied) (h' : r'.Bounds occupied) : r = r' := by
  have inner : r.Within r' := h.least r' h'.covers
  have outer : r'.Within r := h'.least r h.covers
  exact inner.antisymm outer

theorem Bounds.congr (h : r.Bounds occupied) (same : ∀ p, occupied p ↔ occupied' p) :
    r.Bounds occupied' := by
  have he : occupied = occupied' := funext fun p => propext (same p)
  rwa [← he]

theorem Bounds.wellFormed (h : r.Bounds occupied) (hp : occupied p) : r.WellFormed := by
  have hm := h.covers p hp
  rw [mem_iff] at hm
  exact ⟨hm.1.1.trans hm.1.2, hm.2.1.trans hm.2.2⟩

theorem bounds_single (p : Position) : (single p).Bounds (· = p) := by
  refine ⟨fun q hq => mem_single.mpr hq, fun outer ho => ?_⟩
  have hp := ho p rfl
  rw [mem_iff] at hp
  exact ⟨hp.1, hp.2⟩

/-- Covering one more position keeps a range the smallest. -/
theorem Bounds.cover (h : r.Bounds occupied) (p : Position) :
    (r.cover p).Bounds fun q => q = p ∨ occupied q := by
  constructor
  · rintro q (rfl | hq)
    · exact mem_cover_self r q
    · exact mem_cover_of_mem (h.covers q hq)
  · intro outer ho
    have hr : r.Within outer := h.least outer fun q hq => ho q (.inr hq)
    have hp : p ∈ outer := ho p (.inl rfl)
    simp only [mem_iff] at hp
    simp only [Within, Range.cover] at hr ⊢
    omega

end Range

/-- What a reader does to a sheet: it stores a cell, or it gives the cell at a position a formula.
Where no cell is stored yet, a formula makes one that holds nothing else. -/
inductive Write
  | cell (c : Cell)
  | formula (p : Position) (text : String)

namespace Write

def position : Write → Position
  | .cell c => c.position
  | .formula p _ => p

def apply (s : Sheet) : Write → Sheet
  | .cell c => s.insert c
  | .formula p text => s.setFormula p text

/-- What a write leaves at its position, where something or nothing was held before. -/
def result : Write → Option Cell → Cell
  | .cell c, _ => c
  | .formula _ text, some c => { c with formula := some text }
  | .formula p text, none => ⟨p, none, some text⟩

/-- The content of a position after one more write. -/
def update (p : Position) (content : Option Cell) (w : Write) : Option Cell :=
  if w.position = p then some (w.result content) else content

/-- What a sequence of writes leaves at a position. -/
def held (writes : List Write) (p : Position) : Option Cell :=
  writes.foldl (update p) none

/-- The formulas that a sequence of writes gives to a position. -/
def formulasAt (p : Position) (writes : List Write) : List String :=
  writes.filterMap fun
    | .cell _ => none
    | .formula q text => if q = p then some text else none

variable {writes after : List Write} {p : Position} {c : Cell}

theorem formulasAt_cons_cell : formulasAt p (.cell c :: writes) = formulasAt p writes := rfl

theorem formulasAt_cons_formula (text : String) :
    formulasAt p (.formula p text :: writes) = text :: formulasAt p writes := by
  simp [formulasAt]

theorem formulasAt_cons_of_ne {q : Position} (text : String) (h : q ≠ p) :
    formulasAt p (.formula q text :: writes) = formulasAt p writes := by
  simp [formulasAt, h]

/-- Writes that store no cell at a position leave the cell there, under the last formula. -/
theorem foldl_update_of_no_cell (keeps : ∀ d, .cell d ∈ after → d.position ≠ p) :
    after.foldl (update p) (some c) =
      some { c with formula := (formulasAt p after).getLast?.or c.formula } := by
  -- On the writes to come; `c` is what the writes so far have left.
  induction after generalizing c with
  | nil => rfl
  | cons w after ih =>
    have later : ∀ d, .cell d ∈ after → d.position ≠ p :=
      fun d hd => keeps d (List.mem_cons_of_mem _ hd)
    rw [List.foldl_cons]
    cases w with
    | cell d =>
      have hd : d.position ≠ p := keeps d List.mem_cons_self
      rw [formulasAt_cons_cell, update, position, if_neg hd]
      exact ih later
    | formula q text =>
      rw [update, position]
      by_cases hq : q = p
      · subst hq
        rw [if_pos rfl, result, ih later, formulasAt_cons_formula, List.getLast?_cons]
        cases (formulasAt q after).getLast? <;> rfl
      · rw [if_neg hq, formulasAt_cons_of_ne text hq]
        exact ih later

/-- The last cell that was stored at a position is what it holds, under the last formula since. -/
theorem held_of_last {before : List Write}
    (keeps : ∀ d, .cell d ∈ after → d.position ≠ c.position) :
    held (before ++ .cell c :: after) c.position =
      some { c with formula := (formulasAt c.position after).getLast?.or c.formula } := by
  have own : update c.position (before.foldl (update c.position) none) (.cell c) = some c :=
    if_pos rfl
  rw [held, List.foldl_append, List.foldl_cons, own, foldl_update_of_no_cell keeps]

theorem isSome_foldl_update {content : Option Cell} :
    (writes.foldl (update p) content).isSome = true ↔
      content.isSome = true ∨ ∃ w ∈ writes, w.position = p := by
  induction writes generalizing content with
  | nil => simp
  | cons w writes ih =>
    rw [List.foldl_cons, ih, update]
    by_cases hw : w.position = p <;> simp [hw]

end Write

namespace Sheet

/-- The sheet that writes build from nothing. -/
def written (name : String) (writes : List Write) : Sheet :=
  writes.foldl Write.apply (empty name)

/-- Every cell stands under its own position, and the range is the smallest one around them. Only a
sheet without cells has none. -/
structure Snug (s : Sheet) : Prop where
  own : ∀ (key : Position) (c : Cell), s.cells[key]? = some c → c.position = key
  unranged : s.range = none ↔ s.cells = ∅
  bounds : ∀ r, s.range = some r → r.Bounds (· ∈ s.cells)

variable {s t : Sheet} {name : String} {writes : List Write}

theorem cells_setFormula (s : Sheet) (p q : Position) (text : String) :
    (s.setFormula p text).cells[q]? =
      if p = q then some ((Write.formula p text).result s.cells[p]?) else s.cells[q]? := by
  unfold setFormula
  cases hc : s.cells[p]? with
  | none => exact cells_insert s _ q
  | some c => exact cells_put s p q _

theorem cells_apply (s : Sheet) (w : Write) (p : Position) :
    (w.apply s).cells[p]? = Write.update p s.cells[p]? w := by
  unfold Write.update
  cases w with
  | cell c => exact cells_insert s c p
  | formula q text =>
    rw [Write.apply, cells_setFormula, Write.position]
    by_cases hq : q = p
    · rw [if_pos hq, if_pos hq, hq]
    · rw [if_neg hq, if_neg hq]

theorem cells_foldl_apply (s : Sheet) (writes : List Write) (p : Position) :
    (writes.foldl Write.apply s).cells[p]? = writes.foldl (Write.update p) s.cells[p]? := by
  induction writes generalizing s with
  | nil => rfl
  | cons w writes ih => rw [List.foldl_cons, List.foldl_cons, ih, cells_apply]

theorem cells_written (name : String) (writes : List Write) (p : Position) :
    (written name writes).cells[p]? = Write.held writes p :=
  cells_foldl_apply (empty name) writes p

theorem mem_cells_written {p : Position} :
    p ∈ (written name writes).cells ↔ ∃ w ∈ writes, w.position = p := by
  rw [Std.ExtTreeMap.mem_iff_isSome_getElem?, cells_written, Write.held,
    Write.isSome_foldl_update]
  simp

theorem name_apply (s : Sheet) (w : Write) : (w.apply s).name = s.name := by
  cases w with
  | cell c => rfl
  | formula p text =>
    rw [Write.apply, setFormula]
    split <;> rfl

theorem name_written (name : String) (writes : List Write) : (written name writes).name = name := by
  have run (s : Sheet) : (writes.foldl Write.apply s).name = s.name := by
    induction writes generalizing s with
    | nil => rfl
    | cons w writes ih => rw [List.foldl_cons, ih, name_apply]
  exact run (empty name)

theorem snug_empty (name : String) : (empty name).Snug where
  own := by simp [empty]
  unranged := by simp [empty]
  bounds := by simp [empty]

theorem Snug.insert (h : s.Snug) (c : Cell) : (s.insert c).Snug where
  own := by
    intro key d hd
    rw [cells_insert] at hd
    split at hd
    case isTrue hk => rw [← Option.some.inj hd, hk]
    case isFalse => exact h.own key d hd
  unranged := by
    have hm : c.position ∈ (s.insert c).cells := Std.ExtTreeMap.mem_insert_self
    simp only [Sheet.insert, reduceCtorEq, false_iff]
    rintro he
    rw [Sheet.insert, he] at hm
    exact Std.ExtTreeMap.not_mem_empty hm
  bounds := by
    intro r hr
    have grown : ∀ q, q = c.position ∨ q ∈ s.cells ↔ q ∈ (s.insert c).cells := by
      intro q
      rw [Sheet.insert, Std.ExtTreeMap.mem_insert, Std.LawfulEqCmp.compare_eq_iff_eq, eq_comm]
    obtain rfl := Option.some.inj hr
    cases hs : s.range with
    | none =>
      have none_stored : s.cells = ∅ := h.unranged.mp hs
      refine (Range.bounds_single c.position).congr fun q => ?_
      rw [← grown q, none_stored]
      simp
    | some r => exact ((h.bounds r hs).cover c.position).congr grown

theorem Snug.put (h : s.Snug) {p : Position} {c : Cell} (own : c.position = p)
    (stored : p ∈ s.cells) : (s.put p c).Snug := by
  have keys : ∀ q, q ∈ s.cells ↔ q ∈ (s.put p c).cells := by
    intro q
    rw [Sheet.put, Std.ExtTreeMap.mem_insert, Std.LawfulEqCmp.compare_eq_iff_eq]
    constructor
    · exact .inr
    · rintro (rfl | hq)
      · exact stored
      · exact hq
  refine ⟨?_, ?_, fun r hr => (h.bounds r hr).congr keys⟩
  · intro key d hd
    rw [cells_put] at hd
    split at hd
    case isTrue hk => rw [← Option.some.inj hd, own, hk]
    case isFalse => exact h.own key d hd
  · have before : s.cells ≠ ∅ := by
      rintro he
      exact Std.ExtTreeMap.not_mem_empty (he ▸ stored)
    have after : (s.put p c).cells ≠ ∅ := by
      rintro he
      exact Std.ExtTreeMap.not_mem_empty (he ▸ (keys p).mp stored)
    have ranged : s.range ≠ none := fun hr => before (h.unranged.mp hr)
    exact ⟨fun hr => absurd hr ranged, fun he => absurd he after⟩

/-- One write keeps cells and range in step. -/
theorem Snug.apply (h : s.Snug) (w : Write) : (w.apply s).Snug := by
  cases w with
  | cell c => exact h.insert c
  | formula p text =>
    rw [Write.apply, setFormula]
    split
    case h_1 c hc =>
      have stored : p ∈ s.cells := Std.ExtTreeMap.mem_iff_isSome_getElem?.mpr (by simp [hc])
      exact h.put (h.own p c hc) stored
    case h_2 => exact h.insert _

theorem snug_written (name : String) (writes : List Write) : (written name writes).Snug := by
  have run {s : Sheet} (h : s.Snug) : (writes.foldl Write.apply s).Snug := by
    induction writes generalizing s with
    | nil => exact h
    | cons w writes ih => exact ih (h.apply w)
  exact run (snug_empty name)

theorem Snug.exists_mem {r : Range} (h : s.Snug) (hr : s.range = some r) : ∃ p, p ∈ s.cells := by
  have stored : s.cells ≠ ∅ := by
    intro he
    rw [h.unranged.mpr he] at hr
    cases hr
  by_contra hn
  apply stored
  rw [Std.ExtTreeMap.eq_empty_iff_forall_not_mem]
  exact fun p hp => hn ⟨p, hp⟩

theorem Snug.range_eq (h : s.Snug) (h' : t.Snug) (same : s.cells = t.cells) :
    s.range = t.range := by
  have empties : s.range = none ↔ t.range = none := by rw [h.unranged, h'.unranged, same]
  cases hs : s.range with
  | none => exact (empties.mp hs).symm
  | some r =>
    cases ht : t.range with
    | none => rw [empties.mpr ht] at hs; cases hs
    | some r' =>
      have bounds : r.Bounds (· ∈ t.cells) := same ▸ h.bounds r hs
      rw [bounds.unique (h'.bounds r' ht)]

/-- What is left at each position determines a sheet that was built by writes. -/
theorem written_congr {others : List Write}
    (same : ∀ p, Write.held writes p = Write.held others p) :
    written name writes = written name others := by
  have cells : (written name writes).cells = (written name others).cells := by
    apply Std.ExtTreeMap.ext_getElem?
    intro p
    rw [cells_written, cells_written, same]
  have range := (snug_written name writes).range_eq (snug_written name others) cells
  have names : (written name writes).name = (written name others).name := by
    rw [name_written, name_written]
  cases hs : written name writes
  cases ht : written name others
  simp_all

theorem Snug.consistent (h : s.Snug) : s.Consistent := by
  cases hr : s.range with
  | none => exact .inl ⟨hr, h.unranged.mp hr⟩
  | some r =>
    obtain ⟨p, hp⟩ := h.exists_mem hr
    refine .inr ⟨r, hr, (h.bounds r hr).wellFormed hp, fun key c hc => ⟨h.own key c hc, ?_⟩⟩
    exact (h.bounds r hr).covers key (Std.ExtTreeMap.mem_iff_isSome_getElem?.mpr (by simp [hc]))

theorem Snug.exists_extract (h : s.Snug) (headers : Headers)
    (substitute : String → Headers → String) :
    ∃ records, s.extract headers substitute = .ok records :=
  ⟨_, extract_eq_ok_iff.mpr ⟨h.consistent, rfl⟩⟩

/-- A sheet that some sequence of writes has built. -/
def IsWritten (s : Sheet) : Prop := ∃ name writes, s = written name writes

theorem IsWritten.snug (h : s.IsWritten) : s.Snug := by
  obtain ⟨name, writes, rfl⟩ := h
  exact snug_written name writes

/-- The write for a slot of a value grid. -/
def datumWrite? (slot : Position × Datum) : Option Write :=
  slot.2.value?.map fun v => .cell ⟨slot.1, some v, none⟩

/-- The write for a slot of a formula grid. -/
def formulaWrite? (slot : Position × String) : Option Write :=
  if slot.2 = "" then none else some (.formula slot.1 (OpenFormula.normalize slot.2))

/-- Steps that each do at most one write do a sequence of them. -/
theorem foldl_eq_writes {α : Type} {write? : α → Option Write} {add : Sheet → α → Sheet}
    (step : ∀ s a, add s a = (write? a).elim s (Write.apply s)) (slots : List α) (s : Sheet) :
    slots.foldl add s = (slots.filterMap write?).foldl Write.apply s := by
  induction slots generalizing s with
  | nil => rfl
  | cons a slots ih =>
    rw [List.foldl_cons, ih, step]
    cases h : write? a with
    | none => rw [List.filterMap_cons_none h, Option.elim_none]
    | some w => rw [List.filterMap_cons_some h, Option.elim_some, List.foldl_cons]

theorem addDatum_eq (s : Sheet) (slot : Position × Datum) :
    s.addDatum slot = (datumWrite? slot).elim s (Write.apply s) := by
  unfold addDatum datumWrite?
  cases slot.2.value? <;> rfl

theorem addFormula_eq (s : Sheet) (slot : Position × String) :
    s.addFormula slot = (formulaWrite? slot).elim s (Write.apply s) := by
  unfold addFormula formulaWrite?
  by_cases empty : slot.2 = ""
  · rw [if_pos empty, if_pos empty, Option.elim_none]
  · rw [if_neg empty, if_neg empty, Option.elim_some, Write.apply]

/-- Merging two grids is a sequence of writes. -/
theorem ofGrids_eq_written (name : String) (values : Grid Datum) (formulas : Grid String) :
    ofGrids name values formulas = written name
      (values.slots.filterMap datumWrite? ++ formulas.slots.filterMap formulaWrite?) := by
  rw [ofGrids, written, List.foldl_append, foldl_eq_writes addFormula_eq,
    foldl_eq_writes addDatum_eq]

theorem isWritten_ofGrids (name : String) (values : Grid Datum) (formulas : Grid String) :
    (ofGrids name values formulas).IsWritten :=
  ⟨name, _, ofGrids_eq_written name values formulas⟩

end Sheet

namespace Workbook

variable {config : Config} {seen : List String} {sheets : List Sheet}

theorem isWritten_of_stored {b : StoredSheet} {s : Sheet} (h : b.read = .ok s) : s.IsWritten := by
  unfold StoredSheet.read at h
  split_ifs at h
  rw [← Except.ok.inj h]
  exact Sheet.isWritten_ofGrids b.name b.values b.formulas

theorem isWritten_of_mapM {stored : List StoredSheet}
    (h : stored.mapM StoredSheet.read = .ok sheets) : ∀ s ∈ sheets, s.IsWritten := by
  induction stored generalizing sheets with
  | nil =>
    obtain rfl : [] = sheets := Except.ok.inj h
    simp
  | cons b stored ih =>
    rw [List.mapM_cons] at h
    cases hb : b.read with
    | error e => rw [hb] at h; cases h
    | ok s =>
      cases hs : stored.mapM StoredSheet.read with
      | error e => rw [hb, hs] at h; cases h
      | ok rest =>
        rw [hb, hs] at h
        obtain rfl : s :: rest = sheets := Except.ok.inj h
        exact List.forall_mem_cons.mpr ⟨isWritten_of_stored hb, ih hs⟩

theorem isWritten_of_read {path : String} {book : WorkbookFile} {w : Workbook}
    (h : book.read path = .ok w) : ∀ s ∈ w.sheets, s.IsWritten := by
  unfold WorkbookFile.read at h
  split_ifs at h
  cases hs : book.sheets.mapM StoredSheet.read with
  | error e => rw [hs] at h; cases h
  | ok sheets =>
    rw [hs] at h
    obtain rfl : (⟨path, sheets⟩ : Workbook) = w := Except.ok.inj h
    exact isWritten_of_mapM hs

theorem exists_contribution {s : Sheet} (h : s.Consistent) :
    ∃ part, contribution config s = .ok part := by
  cases hs : config.isSkipped s.name with
  | true => exact ⟨[], contribution_of_skipped hs⟩
  | false => exact ⟨_, (contribution_of_kept hs).trans (Sheet.extract_eq_ok_iff.mpr ⟨h, rfl⟩)⟩

theorem exists_extractSheets (accepted : ∀ s ∈ sheets, s.Consistent)
    (distinct : (sheets.map Sheet.name).Nodup) (fresh : ∀ s ∈ sheets, s.name ∉ seen) :
    ∃ records, extractSheets config seen sheets = .ok records := by
  induction sheets generalizing seen with
  | nil => exact ⟨[], rfl⟩
  | cons s sheets ih =>
    rw [List.map_cons, List.nodup_cons] at distinct
    have later : ∀ t ∈ sheets, t.name ∉ s.name :: seen := by
      intro t ht hm
      rcases List.mem_cons.mp hm with same | hm
      · exact distinct.1 (same ▸ List.mem_map_of_mem ht)
      · exact fresh t (List.mem_cons_of_mem _ ht) hm
    obtain ⟨part, hp⟩ : ∃ part, contribution config s = .ok part :=
      exists_contribution (accepted s List.mem_cons_self)
    obtain ⟨others, ho⟩ :=
      ih (fun t ht => accepted t (List.mem_cons_of_mem _ ht)) distinct.2 later
    refine ⟨part ++ others, ?_⟩
    rw [extractSheets_of_notMem (fresh s List.mem_cons_self), hp, ho]
    rfl

theorem report_eq_error_iff {w : Workbook} :
    (∃ e, w.report config = .error e) ↔ ¬ ∃ records, w.extract config = .ok records := by
  unfold report
  cases w.extract config <;> simp [Except.map]

/-- A workbook of sheets that do not contradict themselves is refused for its sheet names alone. -/
theorem report_fails_iff {w : Workbook} (accepted : ∀ s ∈ w.sheets, s.Consistent) :
    (∃ e, w.report config = .error e) ↔ ¬ w.names.Nodup := by
  rw [report_eq_error_iff, not_iff_not]
  constructor
  · rintro ⟨records, ok⟩
    exact (names_of_extractSheets ok).1
  · intro distinct
    exact exists_extractSheets accepted distinct (by simp)

end Workbook

namespace Sheet

/-- Each position of a sheet built by writes holds the last cell stored there, under the last
formula given to it since. Nothing else counts, so the range is the smallest around the written
positions, the sheet is accepted, and a workbook of such sheets, as every workbook that is read, is
refused exactly if two of its sheets have one name. -/
theorem written_last_writes (name : String) (writes : List Write) :
    (∀ p : Position, (written name writes).cells[p]? = Write.held writes p) ∧
    (∀ before c after, writes = before ++ .cell c :: after →
      (∀ d, .cell d ∈ after → d.position ≠ c.position) →
      (written name writes).cells[c.position]? =
        some { c with formula := (Write.formulasAt c.position after).getLast?.or c.formula }) ∧
    (∀ p, p ∈ (written name writes).cells ↔ ∃ w ∈ writes, w.position = p) ∧
    (written name writes).Snug ∧
    (∀ others, (∀ p, Write.held writes p = Write.held others p) →
      written name writes = written name others) ∧
    (∀ headers substitute, ∃ records,
      (written name writes).extract headers substitute = .ok records) ∧
    (∀ (w : Workbook) config, (∀ s ∈ w.sheets, s.IsWritten) →
      ((∃ e, w.report config = .error e) ↔ ¬ w.names.Nodup)) ∧
    ∀ path (book : WorkbookFile) w, book.read path = .ok w → ∀ s ∈ w.sheets, s.IsWritten := by
  have snug := snug_written name writes
  refine ⟨cells_written name writes, ?_, fun p => mem_cells_written, snug,
    fun others => written_congr, snug.exists_extract, ?_,
    fun path book w => Workbook.isWritten_of_read⟩
  · rintro before c after rfl keeps
    rw [cells_written]
    exact Write.held_of_last keeps
  · intro w config built
    exact Workbook.report_fails_iff fun s hs => (built s hs).snug.consistent

/-- A cell that is stored twice and then given two formulas, and a cell that a formula makes. -/
def rewritten : List Write :=
  [.cell ⟨⟨2, 3⟩, some (.boolean true), some "=A1"⟩, .formula ⟨0, 5⟩ "=B1",
    .cell ⟨⟨2, 3⟩, some (.boolean false), none⟩, .formula ⟨2, 3⟩ "=C1", .formula ⟨2, 3⟩ "=D1"]

def notebook : WorkbookFile := ⟨.ods, [⟨"S", [⟨⟨0, 0⟩, .integer 1, "A2", false⟩]⟩]⟩

theorem written_last_writes_twice :
    (written "S" rewritten).cells[(⟨2, 3⟩ : Position)]? =
      some ⟨⟨2, 3⟩, some (.boolean false), some "=D1"⟩ ∧
    written "S" rewritten = written "S" [.cell ⟨⟨2, 3⟩, some (.boolean false), some "=D1"⟩,
      .formula ⟨0, 5⟩ "=B1"] ∧
    (∃ e, (Workbook.mk "" [written "S" rewritten, written "S" []]).report {} = .error e) ∧
    (¬ ∃ e, (Workbook.mk "" [written "S" rewritten, written "T" []]).report {} = .error e) ∧
    ∃ w, notebook.read "s.ods" = .ok w ∧ ∀ s ∈ w.sheets, s.IsWritten := by
  obtain ⟨-, last, -, -, same, -, refused, read⟩ := written_last_writes "S" rewritten
  obtain ⟨w, hw⟩ : ∃ w, notebook.read "s.ods" = .ok w := ⟨_, rfl⟩
  refine ⟨?_, same _ fun p => ?_, ?_, ?_, w, hw, read "s.ods" notebook w hw⟩
  · have keeps : ∀ d, .cell d ∈ [Write.formula ⟨2, 3⟩ "=C1", .formula ⟨2, 3⟩ "=D1"] →
        d.position ≠ ⟨2, 3⟩ := by simp
    exact last [_, _] ⟨⟨2, 3⟩, some (.boolean false), none⟩ _ rfl keeps
  · by_cases first : (⟨2, 3⟩ : Position) = p
    · simp [Write.held, Write.update, rewritten, Write.position, Write.result, ← first]
    · simp [Write.held, Write.update, rewritten, Write.position, Write.result, first]
  · rw [refused _ {} (by simp [IsWritten])]
    simp [Workbook.names, name_written]
  · rw [refused _ {} (by simp [IsWritten])]
    simp [Workbook.names, name_written]

end Sheet

end FormulaDigest
