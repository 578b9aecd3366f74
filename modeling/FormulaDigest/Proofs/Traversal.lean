import FormulaDigest.Proofs.Acceptance
import FormulaDigest.Proofs.Address

/-!
# The walk over a sheet

Extraction visits every position of the declared rectangle, row by row, and looks each one up among
the stored cells. On a consistent sheet the visit meets every stored cell once and in the order of
the positions, so the records are those of the formula cells.
-/
namespace FormulaDigest

/-- Row by row, and from left to right in a row. -/
def Position.Before (p q : Position) : Prop :=
  p.row < q.row ∨ p.row = q.row ∧ p.column < q.column

namespace Position

theorem Before.asymm {p q : Position} (h : p.Before q) (h' : q.Before p) : False := by
  unfold Before at *
  omega

theorem Before.ne {p q : Position} (h : p.Before q) : p ≠ q := by
  rintro rfl
  exact h.asymm h

theorem compare_eq_lt_iff {p q : Position} : compare p q = .lt ↔ p.Before q := by
  change compareLex (compareOn row) (compareOn column) p q = .lt ↔ _
  simp [compareLex, compareOn, Ordering.then_eq_lt, Before, Nat.compare_eq_lt]

end Position

namespace Range

/-- The positions of a range, row by row. -/
def positions (r : Range) : List Position :=
  r.rows.toList.flatMap fun row => r.columns.toList.map fun column => ⟨row, column⟩

theorem mem_positions {r : Range} {p : Position} : p ∈ r.positions ↔ p ∈ r := by
  simp only [positions, List.mem_flatMap, List.mem_map, Interval.mem_toList]
  constructor
  · rintro ⟨row, hr, column, hc, rfl⟩
    exact ⟨hr, hc⟩
  · intro h
    exact ⟨p.row, h.1, p.column, h.2, rfl⟩

theorem pairwise_positions (r : Range) : r.positions.Pairwise Position.Before := by
  have sorted (i : Interval) : i.toList.Pairwise (· < ·) := List.pairwise_lt_range'
  rw [positions, List.flatMap_def, List.pairwise_flatten]
  constructor
  · intro l hl
    obtain ⟨row, -, rfl⟩ := List.mem_map.mp hl
    exact List.pairwise_map.mpr ((sorted _).imp fun h => Or.inr ⟨rfl, h⟩)
  · refine List.pairwise_map.mpr ((sorted _).imp ?_)
    intro row row' h p hp q hq
    obtain ⟨column, -, rfl⟩ := List.mem_map.mp hp
    obtain ⟨column', -, rfl⟩ := List.mem_map.mp hq
    exact Or.inl h

end Range

/-- Lists of cells in strict order of their positions are equal if they have the same members. -/
theorem eq_of_pairwise_before {cs ds : List Cell}
    (hc : cs.Pairwise fun c d => c.position.Before d.position)
    (hd : ds.Pairwise fun c d => c.position.Before d.position)
    (h : ∀ c, c ∈ cs ↔ c ∈ ds) : cs = ds := by
  have nodup {l : List Cell} (hl : l.Pairwise fun c d => c.position.Before d.position) : l.Nodup :=
    hl.imp fun hb he => hb.ne (congrArg Cell.position he)
  exact List.Perm.eq_of_pairwise (fun _ _ _ _ hb hb' => (hb.asymm hb').elim) hc hd
    ((List.perm_ext_iff_of_nodup (nodup hc) (nodup hd)).mpr h)

namespace Sheet

variable {s : Sheet} {r : Range} {h : Headers} {substitute : String → Headers → String}

theorem values_cells (s : Sheet) : s.cells.values = s.cells.toList.map Prod.snd := by
  have hv : s.cells.values = s.cells.foldr (fun _ c cs => c :: cs) [] := by
    rcases s.cells with ⟨⟨_⟩⟩
    rfl
  rw [hv, Std.ExtTreeMap.foldr_eq_foldr_toList]
  induction s.cells.toList with
  | nil => rfl
  | cons entry entries ih => rw [List.foldr_cons, ih, List.map_cons]

theorem mem_values_cells {c : Cell} :
    c ∈ s.cells.values ↔ ∃ key : Position, s.cells[key]? = some c := by
  simp [values_cells, Std.ExtTreeMap.mem_toList_iff_getElem?_eq_some]

theorem Fits.mem_values {c : Cell} (hf : s.Fits r) :
    c ∈ s.cells.values ↔ s.cell? c.position = some c := by
  rw [mem_values_cells]
  constructor
  · rintro ⟨key, hc⟩
    rw [(hf key c hc).1]
    exact hc
  · exact fun hc => ⟨c.position, hc⟩

/-- Where the cells stand under their own positions, the order of the keys is theirs too. -/
theorem Fits.pairwise_values (hf : s.Fits r) :
    s.cells.values.Pairwise fun c d => c.position.Before d.position := by
  rw [values_cells, List.pairwise_map]
  refine s.cells.ordered_keys_toList.imp_of_mem ?_
  rintro ⟨key, c⟩ ⟨key', d⟩ hc hd hlt
  rw [Std.ExtTreeMap.mem_toList_iff_getElem?_eq_some] at hc hd
  rw [(hf key c hc).1, (hf key' d hd).1]
  exact Position.compare_eq_lt_iff.mp hlt

/-- The walk over the rectangle meets exactly the stored cells. -/
theorem Fits.filterMap_positions (hf : s.Fits r) :
    r.positions.filterMap s.cell? = s.cells.values := by
  have own {p : Position} {c : Cell} (hc : s.cell? p = some c) : c.position = p := (hf p c hc).1
  apply eq_of_pairwise_before
  · refine r.pairwise_positions.filterMap _ ?_
    intro p q hpq c hc d hd
    rwa [own hc, own hd]
  · exact hf.pairwise_values
  · intro c
    rw [List.mem_filterMap, hf.mem_values]
    constructor
    · rintro ⟨p, -, hc⟩
      rwa [own hc]
    · intro hc
      exact ⟨c.position, Range.mem_positions.mpr (hf _ c hc).2, hc⟩

/-- The record of a stored cell, if it carries a formula. -/
def recordOf? (s : Sheet) (h : Headers) (substitute : String → Headers → String) (c : Cell) :
    Option Record :=
  c.formula.map fun formula =>
    ⟨s.name, c.position.a1, (h.get? c.position.column).getD "", substitute formula h⟩

theorem recordsIn_eq_filterMap :
    s.recordsIn h substitute r = r.positions.filterMap (s.recordAt? h substitute) := by
  simp only [recordsIn, Range.positions, List.filterMap_flatMap, List.filterMap_map]
  rfl

theorem Fits.recordAt?_eq_bind (hf : s.Fits r) (p : Position) :
    s.recordAt? h substitute p = (s.cell? p).bind (s.recordOf? h substitute) := by
  unfold recordAt? recordOf?
  cases hc : s.cell? p with
  | none => rfl
  | some c =>
    obtain rfl := (hf p c hc).1
    cases hfc : c.formula <;> simp [hfc]

theorem Fits.recordsIn_eq (hf : s.Fits r) :
    s.recordsIn h substitute r = s.formulaCells.filterMap (s.recordOf? h substitute) := by
  have hb : s.recordAt? h substitute = fun p => (s.cell? p).bind (s.recordOf? h substitute) :=
    funext hf.recordAt?_eq_bind
  rw [recordsIn_eq_filterMap, hb, ← List.filterMap_filterMap, hf.filterMap_positions,
    formulaCells, List.filterMap_filter]
  congr 1
  funext c
  cases hc : c.formula <;> simp [recordOf?, Cell.hasFormula, hc]

/-- Extraction refuses a sheet with its fault, or gives the records of its formula cells. -/
theorem extract_eq (s : Sheet) (h : Headers) (substitute : String → Headers → String) :
    s.extract h substitute = match s.fault? with
      | some fault => .error ⟨s.name, fault⟩
      | none => .ok (s.formulaCells.filterMap (s.recordOf? h substitute)) := by
  unfold extract
  cases hf : s.fault? with
  | some fault => rfl
  | none =>
    rcases fault?_eq_none_iff.mp hf with ⟨hr, hc⟩ | ⟨r, hr, -, hc⟩
    · have hn : s.formulaCells = [] := by simp only [formulaCells, hc]; rfl
      simp [hr, hn]
    · simp [hr, hc.recordsIn_eq]

theorem extract_eq_ok_iff {records : List Record} : s.extract h substitute = .ok records ↔
    s.Consistent ∧ records = s.formulaCells.filterMap (s.recordOf? h substitute) := by
  rw [extract_eq, ← fault?_eq_none_iff]
  cases s.fault? <;> simp [eq_comm]

theorem extract_eq_error_iff {e : Malformed} : s.extract h substitute = .error e ↔
    ∃ fault, s.fault? = some fault ∧ e = ⟨s.name, fault⟩ := by
  rw [extract_eq]
  cases s.fault? <;> simp [eq_comm]

/-- What the record of a formula cell says. -/
structure Describes (s : Sheet) (h : Headers) (substitute : String → Headers → String) (c : Cell)
    (r : Record) : Prop where
  sheet : r.sheet = s.name
  address : r.address = c.position.a1
  column : r.column = (h.get? c.position.column).getD ""
  formula : ∃ formula, c.formula = some formula ∧ r.formula = substitute formula h

theorem forall₂_describes {cs : List Cell} (hc : ∀ c ∈ cs, c.hasFormula = true) :
    List.Forall₂ (s.Describes h substitute) cs (cs.filterMap (s.recordOf? h substitute)) := by
  induction cs with
  | nil => exact .nil
  | cons c cs ih =>
    obtain ⟨formula, hf⟩ := Option.isSome_iff_exists.mp (hc c (by simp))
    have hr : s.recordOf? h substitute c = some ⟨s.name, c.position.a1,
        (h.get? c.position.column).getD "", substitute formula h⟩ := by simp [recordOf?, hf]
    rw [List.filterMap_cons_some hr]
    exact .cons ⟨rfl, rfl, rfl, formula, hf, rfl⟩ (ih fun d hd => hc d (by simp [hd]))

theorem Describes.map_address {cs : List Cell} {rs : List Record}
    (hd : List.Forall₂ (s.Describes h substitute) cs rs) :
    rs.map Record.address = cs.map fun c => c.position.a1 := by
  induction hd with
  | nil => rfl
  | cons hcr _ ih => rw [List.map_cons, List.map_cons, hcr.address, ih]

theorem pairwise_formulaCells (hs : s.Consistent) :
    s.formulaCells.Pairwise fun c d => c.position.Before d.position := by
  rcases hs with ⟨-, hc⟩ | ⟨r, -, -, hc⟩
  · have hn : s.formulaCells = [] := by simp only [formulaCells, hc]; rfl
    rw [hn]
    exact .nil
  · exact hc.pairwise_values.filter _

/-- An accepted sheet yields its formula cells, each in one record, in the strict order of their
positions, under pairwise different addresses that read back as those positions. -/
theorem extract_formulaCells {records : List Record} (ok : s.extract h substitute = .ok records) :
    (∀ c, c ∈ s.formulaCells ↔ (∃ key : Position, s.cells[key]? = some c) ∧ c.formula ≠ none) ∧
    s.formulaCells.Pairwise (fun c d => c.position.Before d.position) ∧
    List.Forall₂ (s.Describes h substitute) s.formulaCells records ∧
    (records.map Record.address).Nodup ∧
    ∀ c ∈ s.formulaCells, c.position.row < Column.limit → c.position.column < Column.limit →
      Position.parse c.position.a1 = .ok c.position := by
  obtain ⟨hs, rfl⟩ := extract_eq_ok_iff.mp ok
  have hsorted := pairwise_formulaCells hs
  have hd : List.Forall₂ (s.Describes h substitute) s.formulaCells
      (s.formulaCells.filterMap (s.recordOf? h substitute)) :=
    forall₂_describes fun c hc => (List.mem_filter.mp hc).2
  refine ⟨?_, hsorted, hd, ?_, fun c _ hr hc => Position.parse_a1 hr hc⟩
  · intro c
    rw [formulaCells, List.mem_filter, mem_values_cells, Cell.hasFormula,
      Option.isSome_iff_ne_none]
  · rw [Describes.map_address hd, List.nodup_iff_pairwise_ne, List.pairwise_map]
    exact hsorted.imp fun hb he => hb.ne (Position.a1_injective he)

/-- A sheet whose cells came in the reverse of their order. -/
def reversed : Sheet :=
  (((empty "Data").insert ⟨⟨2, 1⟩, none, some "=A2*AB$3"⟩).insert ⟨⟨1, 27⟩, none, none⟩).insert
    ⟨⟨1, 0⟩, some (.boolean true), some "SUM(A1:B2)"⟩

theorem extract_formulaCells_reversed :
    reversed.extract (.ofList [(0, "Price")]) (fun formula h => h.substitute formula) =
      .ok [⟨"Data", "A2", "Price", "SUM(Price:B)"⟩, ⟨"Data", "B3", "", "Price*AB"⟩] ∧
    ["A2", "B3"].Nodup ∧ Position.parse (Position.a1 ⟨2, 1⟩) = .ok ⟨2, 1⟩ := by
  have ok : reversed.extract (.ofList [(0, "Price")]) (fun formula h => h.substitute formula) =
      .ok [⟨"Data", "A2", "Price", "SUM(Price:B)"⟩, ⟨"Data", "B3", "", "Price*AB"⟩] := by cbv
  obtain ⟨hm, -, -, hn, hp⟩ := extract_formulaCells ok
  have hk : ∃ key : Position, reversed.cells[key]? = some ⟨⟨2, 1⟩, none, some "=A2*AB$3"⟩ :=
    ⟨⟨2, 1⟩, by simp [reversed, cells_insert]⟩
  have hc := (hm ⟨⟨2, 1⟩, none, some "=A2*AB$3"⟩).mpr ⟨hk, by simp⟩
  have hb := hp _ hc (by decide) (by decide)
  exact ⟨ok, hn, hb⟩

end Sheet

end FormulaDigest
