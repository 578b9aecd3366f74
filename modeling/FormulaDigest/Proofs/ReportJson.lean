import FormulaDigest.Proofs.JsonRoundTrip
import FormulaDigest.Proofs.Partition

/-!
# Reading a JSON report

The document of a report is read back as an object with the path of the file, the number of the
records, and the sheets in the order in which they were first seen. Each formula of a sheet is read
as the record that it was, so a reader of the document has every record of the report.
-/
namespace FormulaDigest

/-- Reads one sheet of a report with its formulas. -/
def Group.ofJson? (v : Json) : Option Group := do
  let name ← (← v.member? "name").content?
  let formulas ← (← v.member? "formulas").items?
  let records ← formulas.mapM Record.ofJson?
  pure ⟨name, records⟩

namespace Report

theorem ofJson?_recordJson (r : Record) : Record.ofJson? (recordJson r) = some r := rfl

/-- What is read back item by item is read back as a list. -/
theorem mapM_map {α β : Type} {write : α → β} {read : β → Option α}
    (back : ∀ a, read (write a) = some a) (as : List α) : (as.map write).mapM read = some as := by
  induction as with
  | nil => rfl
  | cons a as ih =>
    rw [List.map_cons, List.mapM_cons, back, ih]
    rfl

theorem ofJson?_groupJson (g : Group) : Group.ofJson? (groupJson g) = some g := by
  have name : (groupJson g).member? "name" = some (.text g.sheet) := rfl
  have formulas : (groupJson g).member? "formulas" = some (.array (g.records.map recordJson)) := rfl
  have texts : (Json.text g.sheet).content? = some g.sheet := rfl
  have items : (Json.array (g.records.map recordJson)).items? =
      some (g.records.map recordJson) := rfl
  simp [Group.ofJson?, name, formulas, texts, items, mapM_map ofJson?_recordJson]

theorem plain_recordJson (r : Record) : (recordJson r).Plain := by
  apply Json.Plain.record
  intro m hm
  simp only [List.mem_cons, List.not_mem_nil, or_false] at hm
  rcases hm with rfl | rfl | rfl | rfl <;> exact .text _

theorem plain_groupJson (g : Group) : (groupJson g).Plain := by
  have formulas : ∀ v ∈ g.records.map recordJson, v.Plain := by
    intro v hv
    obtain ⟨r, -, rfl⟩ := List.mem_map.mp hv
    exact plain_recordJson r
  apply Json.Plain.record
  intro m hm
  simp only [List.mem_cons, List.not_mem_nil, or_false] at hm
  rcases hm with rfl | rfl
  · exact .array formulas
  · exact .text _

theorem plain_toJson (r : Report) (file : String) : (r.toJson file).Plain := by
  have sheets : ∀ v ∈ r.grouped.groups.map groupJson, v.Plain := by
    intro v hv
    obtain ⟨g, -, rfl⟩ := List.mem_map.mp hv
    exact plain_groupJson g
  apply Json.Plain.record
  intro m hm
  simp only [List.mem_cons, List.not_mem_nil, or_false] at hm
  rcases hm with rfl | rfl | rfl
  · exact .text _
  · exact .array sheets
  · exact .natural _

/-- A JSON report is one document and a line break. It is read back as the path of the file, the
number of records and the sheets: each sheet name once, where it was first seen, with the records of
that sheet in their order. For an extracted report the sheets joined together are its records. -/
theorem json_reads_back (r : Report) (file : String) :
    ∃ document sheets groups, r.json file = document ++ "\n" ∧
      (∀ text ∈ [document, document ++ "\n"], Json.parse? text =
        some (.record [("file", .text file), ("sheets", .array sheets),
          ("total", .natural r.records.length)])) ∧
      sheets.mapM Group.ofJson? = some groups ∧
      groups.map Group.sheet = (r.records.map Record.sheet).eraseDups ∧
      (groups.map Group.sheet).Nodup ∧
      (∀ g ∈ groups, g.records = r.records.filter (·.sheet = g.sheet)) ∧
      (groups.map (·.records.length)).sum = r.records.length ∧
      ∀ w config, Workbook.report w config = .ok (.report r) →
        groups.flatMap Group.records = r.records := by
  have plain := r.plain_toJson file
  have ended : r.json file = String.ofList ((r.toJson file).pretty 0) ++ "\n" := by
    rw [json, String.ofList_append]
  refine ⟨String.ofList ((r.toJson file).pretty 0), r.grouped.groups.map groupJson,
    r.grouped.groups, ended, ?_, mapM_map ofJson?_groupJson _, Grouped.sheetNames_ofRecords _,
    Grouped.nodup_sheetNames_ofRecords _, fun g => Grouped.records_of_mem_ofRecords,
    Grouped.sum_length_ofRecords _, ?_⟩
  · intro text ht
    rcases List.mem_pair.mp ht with rfl | rfl
    · have read := plain.parse?_pretty (.inl rfl)
      rw [List.append_nil] at read
      exact read
    · rw [← ended]
      exact plain.parse?_pretty (.inr rfl)
  · intro w config ok
    exact Workbook.records_ofRecords (Workbook.extract_of_report ok)

/-- A sheet that returns after another one, a name with a quote and a formula over two lines. -/
def interleaved : Report :=
  ⟨[⟨"A\"", "A1", "", "1\n2"⟩, ⟨"B", "A1", "", ""⟩, ⟨"A\"", "B1", "\t", "é"⟩], by simp⟩

def lone : Report := ⟨[⟨"Data", "A2", "Col_0", "Col_0*2"⟩], by simp⟩

theorem json_reads_back_interleaved :
    (∃ document sheets groups, interleaved.json "a.ods" = document ++ "\n" ∧
      Json.parse? document = some (.record [("file", .text "a.ods"), ("sheets", .array sheets),
        ("total", .natural 3)]) ∧
      sheets.mapM Group.ofJson? = some groups ∧
      groups.map Group.sheet = ["A\"", "B"] ∧
      ∃ g ∈ groups, g.records = [⟨"A\"", "A1", "", "1\n2"⟩, ⟨"A\"", "B1", "\t", "é"⟩]) ∧
    ∃ sheets groups, Json.parse? (lone.json "b.ods") = some (.record [("file", .text "b.ods"),
        ("sheets", .array sheets), ("total", .natural 1)]) ∧
      sheets.mapM Group.ofJson? = some groups ∧ groups.flatMap Group.records = lone.records := by
  constructor
  · obtain ⟨document, sheets, groups, ended, parsed, read, names, -, parts, -⟩ :=
      json_reads_back interleaved "a.ods"
    have found : groups.map Group.sheet = ["A\"", "B"] := names.trans (by decide)
    have opened : "A\"" ∈ groups.map Group.sheet := found ▸ List.mem_cons_self
    obtain ⟨g, hg, hs⟩ := List.mem_map.mp opened
    refine ⟨document, sheets, groups, ended, parsed _ List.mem_cons_self, read, found, g, hg, ?_⟩
    rw [parts g hg, hs]
    decide
  · obtain ⟨document, sheets, groups, ended, parsed, read, -, -, -, -, flat⟩ :=
      json_reads_back lone "b.ods"
    have extracted : (Workbook.mk "" [Workbook.single]).report {} = .ok (.report lone) := by cbv
    refine ⟨sheets, groups, ?_, read, flat _ _ extracted⟩
    rw [ended]
    exact parsed _ (by simp)

end Report

end FormulaDigest
