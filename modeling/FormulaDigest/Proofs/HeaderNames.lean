import FormulaDigest.Proofs.AddressGrammar
import FormulaDigest.Proofs.MarkdownRoundTrip

/-!
# Names of columns

Every column of the declared range has one name. It is what the first row holds there, on one line
and without the white space around it, or a placeholder. On a sheet that extraction accepts no
record stands outside the range, so each has the name of its column.
-/
namespace FormulaDigest

open Blank

namespace Headers

/-- A name as a heading can hold it: one line that starts and ends with a visible character. -/
structure Tidy (name : String) : Prop where
  oneLine : '\n' ∉ name.toList
  first : ∀ c ∈ name.toList.head?, isBlank c = false
  last : ∀ c ∈ name.toList.getLast?, isBlank c = false

/-- The name of a column by what the first row holds. -/
inductive NameOf (s : Sheet) (column : Nat) : String → Prop
  | header {c : Cell} {value : Value} {name : String} (cell : s.cell? ⟨0, column⟩ = some c)
      (held : c.value = some value)
      (trimmed : Trimmed (value.display.toList.map fun a => if a = '\n' then ' ' else a)
        name.toList) : NameOf s column name
  | unnamed (noValue : ∀ c, s.cell? ⟨0, column⟩ = some c → c.value = none) :
      NameOf s column ("Col_" ++ column.repr)

/-- The first row holds a value over the column, and its text is white space only. -/
def BlankOver (s : Sheet) (column : Nat) : Prop :=
  ∃ c value, s.cell? ⟨0, column⟩ = some c ∧ c.value = some value ∧
    ∀ a ∈ value.display.toList, isBlank a = true

variable {s : Sheet} {r : Range} {column : Nat} {name text : String}

theorem singleLine_eq_iff : singleLine text = name ↔
    Trimmed (text.toList.map fun a => if a = '\n' then ' ' else a) name.toList := by
  rw [← trim_eq_iff, singleLine, ← String.toList_inj, String.toList_ofList]

theorem tidy_singleLine (text : String) : Tidy (singleLine text) := by
  have trimmed := singleLine_eq_iff.mp (rfl : singleLine text = _)
  exact ⟨newline_notMem_singleLine text, trimmed.first, trimmed.last⟩

theorem Tidy.singleLine_eq (h : Tidy name) : singleLine name = name := by
  have same : (name.toList.map fun a => if a = '\n' then ' ' else a) = name.toList.map id := by
    refine List.map_congr_left fun a ha => if_neg ?_
    rintro rfl
    exact h.oneLine ha
  rw [singleLine, same, List.map_id, trim_eq_self h.first h.last, String.ofList_toList]

theorem singleLine_eq_empty_iff :
    singleLine text = "" ↔ ∀ a ∈ text.toList, isBlank a = true := by
  have blank (a : Char) : isBlank (if a = '\n' then ' ' else a) = isBlank a := by
    split_ifs with newline
    · rw [newline]
      decide
    · rfl
  rw [singleLine_eq_iff]
  constructor
  · rintro ⟨⟨before, after, parts, hb, ha⟩, -, -⟩ a hm
    have joined := List.mem_map_of_mem (f := fun a => if a = '\n' then ' ' else a) hm
    rw [← parts] at joined
    rw [← blank]
    simp only [String.toList_empty, List.append_nil, List.mem_append] at joined
    exact joined.elim (hb _) (ha _)
  · intro all
    refine ⟨⟨text.toList.map fun a => if a = '\n' then ' ' else a, [], by simp, ?_, by simp⟩,
      by simp, by simp⟩
    intro a ha
    obtain ⟨a, hm, rfl⟩ := List.mem_map.mp ha
    rw [blank]
    exact all a hm

theorem visible_placeholder {c : Char} (h : c ∈ (placeholder column).toList) :
    isBlank c = false := by
  rw [placeholder, String.toList_append, List.mem_append, Nat.toList_repr] at h
  rcases h with h | h
  · have letters : c = 'C' ∨ c = 'o' ∨ c = 'l' ∨ c = '_' := by simpa using h
    rcases letters with rfl | rfl | rfl | rfl <;> decide
  · have digit := isDigit_iff.mp (Position.isDigit_of_mem_rowDigits h)
    exact isBlank_eq_false (by omega) (by omega)

theorem columnName_iff : columnName s column = name ↔ NameOf s column name := by
  rw [columnName]
  constructor
  · rintro rfl
    split
    case h_1 value found =>
      obtain ⟨c, cell, held⟩ := Option.bind_eq_some_iff.mp found
      exact .header cell held (singleLine_eq_iff.mp rfl)
    case h_2 found => exact .unnamed (Option.bind_eq_none_iff.mp found)
  · rintro (⟨cell, held, trimmed⟩ | noValue)
    · simp only [cell, Option.bind_some, held]
      exact singleLine_eq_iff.mpr trimmed
    · rw [Option.bind_eq_none_iff.mpr noValue, placeholder]

theorem NameOf.tidy (h : NameOf s column name) : Tidy name := by
  cases h with
  | header cell held trimmed =>
    rw [← singleLine_eq_iff.mpr trimmed]
    exact tidy_singleLine _
  | unnamed noValue =>
    have visible {c : Char} (hc : c ∈ ("Col_" ++ column.repr).toList) : isBlank c = false :=
      visible_placeholder hc
    refine ⟨fun hc => ?_, fun c hc => visible (List.mem_of_mem_head? hc),
      fun c hc => visible (List.mem_of_getLast? hc)⟩
    exact absurd (visible hc) (by decide)

theorem NameOf.eq_empty_iff (h : NameOf s column name) : name = "" ↔ BlankOver s column := by
  cases h with
  | @header c value name cell held trimmed =>
    rw [← singleLine_eq_iff.mpr trimmed, singleLine_eq_empty_iff]
    constructor
    · intro blank
      exact ⟨c, value, cell, held, blank⟩
    · rintro ⟨c', value', cell', held', blank⟩
      obtain rfl := Option.some.inj (cell.symm.trans cell')
      obtain rfl := Option.some.inj (held.symm.trans held')
      exact blank
  | unnamed noValue =>
    refine ⟨fun empty => ?_, fun ⟨c, value, cell, held, _⟩ => ?_⟩
    · have letters := congrArg String.toList empty
      simp at letters
    · simp [noValue c cell] at held

theorem get?_ofList_map (columns : List Nat) (names : Nat → String) (column : Nat) :
    (ofList (columns.map fun c => (c, names c))).get? column =
      if column ∈ columns then some (names column) else none := by
  induction columns using List.reverseRecOn with
  | nil => simp [ofList, get?]
  | append_singleton columns last ih =>
    rw [List.map_append, List.map_singleton, get?_ofList_concat, ih]
    by_cases same : last = column
    · simp [same]
    · simp [same, Ne.symm same]

theorem get?_resolve (hr : s.range = some r) :
    (resolve s).get? column = some name ↔ column ∈ r.columns ∧ NameOf s column name := by
  simp only [resolve, hr]
  rw [get?_ofList_map, Option.ite_none_right_eq_some, Option.some.injEq, columnName_iff,
    Interval.mem_toList]

/-- The names stand in the order of the columns, one for each. -/
theorem keys_resolve (hr : s.range = some r) :
    (resolve s).toList.map Prod.fst = r.columns.toList := by
  have sorted : ((resolve s).toList.map Prod.fst).Pairwise (· < ·) := by
    rw [List.pairwise_map]
    exact (resolve s).names.ordered_keys_toList.imp Nat.compare_eq_lt.mp
  refine sorted.eq_of_mem_iff List.pairwise_lt_range' fun column => ?_
  have entry (name : String) :
      (column, name) ∈ (resolve s).toList ↔ (resolve s).get? column = some name :=
    Std.ExtTreeMap.mem_toList_iff_getElem?_eq_some
  have listed : column ∈ (resolve s).toList.map Prod.fst ↔
      ∃ name, (resolve s).get? column = some name := by
    simp [entry]
  rw [listed, Interval.mem_toList]
  constructor
  · rintro ⟨name, found⟩
    exact ((get?_resolve hr).mp found).1
  · intro inside
    exact ⟨_, (get?_resolve hr).mpr ⟨inside, columnName_iff.mp rfl⟩⟩

/-- What the headers of a sheet with a range hold: the columns of the range in their order, each
with its name. -/
structure Resolves (s : Sheet) (r : Range) (h : Headers) : Prop where
  keys : h.toList.map Prod.fst = r.columns.toList
  names : ∀ column name, h.get? column = some name ↔ column ∈ r.columns ∧ NameOf s column name
  tidy : ∀ column name, h.get? column = some name → Tidy name ∧ singleLine name = name

theorem resolves_resolve (hr : s.range = some r) : Resolves s r (resolve s) where
  keys := keys_resolve hr
  names _ _ := get?_resolve hr
  tidy _ _ found := by
    have tidy := ((get?_resolve hr).mp found).2.tidy
    exact ⟨tidy, tidy.singleLine_eq⟩

theorem toList_resolve_of_range_none (hr : s.range = none) : (resolve s).toList = [] := by
  simp only [resolve, hr, empty, toList]
  rfl

end Headers

namespace Sheet

open Headers

/-- A record that stands under the name of its column. -/
structure Titled (s : Sheet) (h : Headers) (c : Cell) (record : Record) : Prop where
  address : record.address = c.position.a1
  column : h.get? c.position.column = some record.column
  blank : record.column = "" ↔ BlankOver s c.position.column

variable {s : Sheet} {r : Range} {c : Cell} {record : Record}
  {substitute : String → Headers → String}

/-- Every stored cell of a consistent sheet stands in a column that has a name. -/
theorem Consistent.exists_name (hs : s.Consistent) {key : Position} (hc : s.cell? key = some c) :
    ∃ name, (resolve s).get? c.position.column = some name ∧ NameOf s c.position.column name := by
  rcases hs with ⟨-, none⟩ | ⟨r, hr, -, hf⟩
  · simp [cell?, none] at hc
  · obtain ⟨rfl, inside⟩ := hf key c hc
    have named : NameOf s c.position.column (columnName s c.position.column) :=
      columnName_iff.mp rfl
    exact ⟨_, (get?_resolve hr).mpr ⟨inside.2, named⟩, named⟩

theorem Describes.titled (hs : s.Consistent) (hc : c ∈ s.formulaCells)
    (described : s.Describes (resolve s) substitute c record) :
    Titled s (resolve s) c record := by
  obtain ⟨key, held⟩ := mem_values_cells.mp (List.mem_filter.mp hc).1
  obtain ⟨name, found, named⟩ := hs.exists_name held
  have column : record.column = name := by rw [described.column, found, Option.getD_some]
  refine ⟨described.address, ?_, ?_⟩
  · rw [found, column]
  · rw [column]
    exact named.eq_empty_iff

/-- No cell of a fitting range stands in a row above it, so the first row says nothing there. -/
theorem Fits.nameOf_of_first_row_pos (hf : s.Fits r) (below : 0 < r.first.row) (column : Nat) :
    NameOf s column ("Col_" ++ column.repr) := by
  refine .unnamed fun c hc => ?_
  have inside := (Range.mem_iff.mp (hf _ c hc).2).1.1
  exact absurd below (by simpa using inside)

/-- The names of the columns of a sheet, and those of the records that extraction makes with
them. -/
theorem resolve_names (s : Sheet) :
    (s.range = none → (resolve s).toList = []) ∧
    (∀ r, s.range = some r → Resolves s r (resolve s)) ∧
    ∀ substitute records, s.extract (resolve s) substitute = .ok records →
      List.Forall₂ (s.Titled (resolve s)) s.formulaCells records ∧
      ∀ r, s.range = some r → 0 < r.first.row → ∀ column ∈ r.columns,
        (resolve s).get? column = some ("Col_" ++ column.repr) := by
  refine ⟨toList_resolve_of_range_none, fun r => resolves_resolve, ?_⟩
  intro substitute records ok
  obtain ⟨hs, rfl⟩ := extract_eq_ok_iff.mp ok
  constructor
  · have described : List.Forall₂ (s.Describes (resolve s) substitute) s.formulaCells
        (s.formulaCells.filterMap (s.recordOf? (resolve s) substitute)) :=
      forall₂_describes fun c hc => (List.mem_filter.mp hc).2
    obtain ⟨lengths, pairs⟩ := List.forall₂_iff_zip.mp described
    refine List.forall₂_iff_zip.mpr ⟨lengths, fun hm => ?_⟩
    exact (pairs hm).titled hs (List.of_mem_zip hm).1
  · intro r hr below column inside
    rcases hs with ⟨hn, -⟩ | ⟨r', hr', -, hf⟩
    · simp [hr] at hn
    · obtain rfl := Option.some.inj (hr.symm.trans hr')
      exact (get?_resolve hr).mpr ⟨inside, hf.nameOf_of_first_row_pos below column⟩

/-- A sheet with a header of two lines, a blank one and none. -/
def labelled : Sheet :=
  (((Sheet.empty "Costs").insert ⟨⟨0, 0⟩, some (.text " Unit\nPrice\t"), none⟩).insert
    ⟨⟨0, 1⟩, some (.text "\n "), some "C1"⟩).insert ⟨⟨1, 2⟩, none, some "A2*2"⟩

example : (resolve labelled).toList = [(0, "Unit Price"), (1, ""), (2, "Col_2")] := by cbv

example : labelled.records =
    .ok [⟨"Costs", "B1", "", "Col_2"⟩, ⟨"Costs", "C2", "Col_2", "Unit Price*2"⟩] := by cbv

end Sheet

end FormulaDigest
