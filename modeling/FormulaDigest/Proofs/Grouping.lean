import FormulaDigest.Proofs.Offence
import FormulaDigest.RecordJson

/-!
# Groups of an extracted workbook

Grouping gives a well-formed list of groups back when it is fed their records group by group. An
extraction delivers the records in just this way, sheet by sheet and under pairwise different
names, so here grouping moves no record.
-/
namespace FormulaDigest

namespace Grouped

/-- No sheet has two groups, and a group holds records of its sheet and at least one of them. -/
structure WellFormed (g : Grouped) : Prop where
  nodup : g.sheetNames.Nodup
  nonempty : ∀ group ∈ g.groups, group.records ≠ []
  sheet : ∀ group ∈ g.groups, ∀ r ∈ group.records, r.sheet = group.sheet

variable {r : Record} {records front : List Record} {done groups : List Group} {name : String}

def insertRecords (records : List Record) (groups : List Group) : List Group :=
  records.foldl (fun groups record => insertRecord record groups) groups

theorem insertRecords_append (records others : List Record) (groups : List Group) :
    insertRecords (records ++ others) groups =
      insertRecords others (insertRecords records groups) :=
  List.foldl_append

/-- Groups of other sheets are passed over. -/
theorem insertRecord_append (groups : List Group) (other : ∀ g ∈ done, g.sheet ≠ r.sheet) :
    insertRecord r (done ++ groups) = done ++ insertRecord r groups := by
  induction done with
  | nil => rfl
  | cons g done ih =>
    rw [List.cons_append, insertRecord, if_neg (other g (by simp)),
      ih fun g hg => other g (by simp [hg]), List.cons_append]

/-- Further records of the last sheet go to its group. -/
theorem insertRecords_last (other : ∀ g ∈ done, g.sheet ≠ name)
    (same : ∀ r ∈ records, r.sheet = name) :
    insertRecords records (done ++ [⟨name, front⟩]) = done ++ [⟨name, front ++ records⟩] := by
  -- On the records to come; `front` holds those that are in the group.
  induction records generalizing front with
  | nil => simp [insertRecords]
  | cons r records ih =>
    have hr : r.sheet = name := same r (by simp)
    have hstep : insertRecord r (done ++ [⟨name, front⟩]) = done ++ [⟨name, front ++ [r]⟩] := by
      rw [insertRecord_append _ (by simpa [hr] using other), insertRecord, if_pos hr.symm]
    rw [insertRecords, List.foldl_cons, hstep]
    exact (ih fun r hr => same r (by simp [hr])).trans (by simp)

/-- The records of one new sheet make up its group. -/
theorem insertRecords_group {group : Group} (other : ∀ g ∈ done, g.sheet ≠ group.sheet)
    (same : ∀ r ∈ group.records, r.sheet = group.sheet) (nonempty : group.records ≠ []) :
    insertRecords group.records done = done ++ [group] := by
  obtain ⟨name, _ | ⟨r, records⟩⟩ := group
  · exact absurd rfl nonempty
  · have hr : r.sheet = name := same r (by simp)
    have hstep : insertRecord r done = done ++ [⟨name, [r]⟩] := by
      have := insertRecord_append (r := r) [] (by simpa [hr] using other)
      simpa [insertRecord, hr] using this
    rw [insertRecords, List.foldl_cons, hstep]
    exact insertRecords_last other fun r hr => same r (by simp [hr])

theorem insertRecords_flatMap (done : List Group) (h : WellFormed ⟨done ++ groups⟩) :
    insertRecords (groups.flatMap Group.records) done = done ++ groups := by
  induction groups generalizing done with
  | nil => simp [insertRecords]
  | cons group groups ih =>
    have hn : ∀ g ∈ done, g.sheet ≠ group.sheet := by
      have hd := h.nodup
      rw [sheetNames, List.map_append, List.nodup_append] at hd
      exact fun g hg => hd.2.2 _ (List.mem_map_of_mem hg) _ (by simp)
    have hg : insertRecords group.records done = done ++ [group] :=
      insertRecords_group hn (h.sheet group (by simp)) (h.nonempty group (by simp))
    rw [List.flatMap_cons, insertRecords_append, hg, ih _ (by simpa using h)]
    simp

theorem WellFormed.ofRecords_records {g : Grouped} (h : g.WellFormed) : ofRecords g.records = g :=
  congrArg Grouped.mk (insertRecords_flatMap [] h)

end Grouped

theorem Outcome.ofRecords_eq_empty_iff {records : List Record} :
    ofRecords records = .empty ↔ records = [] := by
  unfold ofRecords
  split <;> simp_all

theorem Outcome.records_of_ofRecords {records : List Record} {r : Report}
    (h : ofRecords records = .report r) : r.records = records := by
  unfold ofRecords at h
  split at h
  · simp at h
  · rw [← Outcome.report.inj h]

/-- Every form of a report shows the same groups, the CSV form all of them joined together. -/
structure Report.Shows (r : Report) (config : Config) (g : Grouped) : Prop where
  markdown : r.markdown config = Markdown.render g config.title config.label
  json : ∀ file, r.toJson file = .record [("file", .text file),
    ("sheets", .array (g.groups.map groupJson)), ("total", .natural g.records.length)]
  csv : r.csv config = config.delimiterByte.map fun d => Csv.render d g.records

theorem Report.shows_ofRecords {r : Report} {config : Config}
    (h : (Grouped.ofRecords r.records).records = r.records) :
    r.Shows config (.ofRecords r.records) := by
  refine ⟨rfl, fun file => by rw [h]; rfl, ?_⟩
  rw [h, csv]
  cases config.delimiterByte <;> rfl

namespace Sheet

variable {s : Sheet} {records : List Record}

theorem length_of_records_eq_ok (ok : s.records = .ok records) :
    records.length = s.formulaCells.length := by
  obtain ⟨-, rfl⟩ := extract_eq_ok_iff.mp ok
  exact (forall₂_describes fun c hc => (List.mem_filter.mp hc).2).length_eq.symm

theorem records_ne_nil (ok : s.records = .ok records) (hs : s.formulaCells ≠ []) :
    records ≠ [] := by
  have := length_of_records_eq_ok ok
  rw [← List.length_pos_iff] at hs ⊢
  omega

/-- A group is just what a sheet yields. -/
def Yields (s : Sheet) (g : Group) : Prop := g.sheet = s.name ∧ s.records = .ok g.records

end Sheet

namespace Workbook

variable {config : Config} {seen : List String} {s : Sheet} {sheets : List Sheet}
  {records : List Record} {groups : List Group}

/-- The sheets that are not left out and hold a formula. -/
def documented (config : Config) (sheets : List Sheet) : List Sheet :=
  (kept config sheets).filter fun s => s.formulaCells ≠ []

theorem mem_documented : s ∈ documented config sheets ↔
    s ∈ sheets ∧ config.isSkipped s.name = false ∧ s.formulaCells ≠ [] := by
  simp only [documented, kept, List.mem_filter, decide_eq_true_eq, Bool.not_eq_true', and_assoc]

theorem documented_sublist : (documented config sheets).Sublist sheets :=
  List.filter_sublist.trans List.filter_sublist

/-- What an extraction accepts has no sheet name twice. -/
theorem names_of_extractSheets (ok : extractSheets config seen sheets = .ok records) :
    (sheets.map Sheet.name).Nodup ∧ ∀ s ∈ sheets, s.name ∉ seen := by
  induction sheets generalizing seen records with
  | nil => simp
  | cons s sheets ih =>
    obtain ⟨hs, -, others, -, hx, -⟩ := extractSheets_cons_eq_ok ok
    obtain ⟨hn, hseen⟩ := ih hx
    have hnew : s.name ∉ sheets.map Sheet.name := by
      intro hm
      obtain ⟨t, ht, he⟩ := List.mem_map.mp hm
      exact hseen t ht (by simp [he])
    refine ⟨List.nodup_cons.mpr ⟨hnew, hn⟩, ?_⟩
    intro t ht
    rcases List.mem_cons.mp ht with rfl | ht
    · exact hs
    · exact fun hm => hseen t ht (List.mem_cons_of_mem _ hm)

/-- The records come sheet by sheet. A sheet that is left out or has no formulas adds none. -/
theorem yields_of_extractSheets (ok : extractSheets config seen sheets = .ok records) :
    ∃ groups, records = groups.flatMap Group.records ∧
      List.Forall₂ Sheet.Yields (documented config sheets) groups := by
  induction sheets generalizing seen records with
  | nil =>
    obtain rfl : [] = records := Except.ok.inj ok
    exact ⟨[], rfl, .nil⟩
  | cons s sheets ih =>
    obtain ⟨-, part, others, hc, hx, rfl⟩ := extractSheets_cons_eq_ok ok
    obtain ⟨groups, rfl, hg⟩ := ih hx
    cases hs : config.isSkipped s.name with
    | true =>
      rw [contribution_of_skipped hs, Except.ok.injEq] at hc
      exact ⟨groups, by simp [← hc], by rwa [documented, kept_of_skipped hs]⟩
    | false =>
      rw [contribution_of_kept hs] at hc
      rw [documented, kept_of_kept hs]
      -- A kept sheet without formulas has no records, and no group either.
      by_cases hf : s.formulaCells = []
      · have hp : part = [] := by
          rw [← List.length_eq_zero_iff, Sheet.length_of_records_eq_ok hc, hf, List.length_nil]
        rw [List.filter_cons_of_neg (by simpa using hf)]
        exact ⟨groups, by simp [hp], hg⟩
      · refine ⟨⟨s.name, part⟩ :: groups, by simp, ?_⟩
        rw [List.filter_cons_of_pos (by simpa using hf)]
        exact .cons ⟨rfl, hc⟩ hg

theorem sheets_of_yields {sheets : List Sheet} (h : List.Forall₂ Sheet.Yields sheets groups) :
    groups.map Group.sheet = sheets.map Sheet.name := by
  induction h with
  | nil => rfl
  | cons hy _ ih => rw [List.map_cons, List.map_cons, hy.1, ih]

theorem exists_yields_of_mem {sheets : List Sheet} {g : Group}
    (h : List.Forall₂ Sheet.Yields sheets groups) (hg : g ∈ groups) :
    ∃ s ∈ sheets, s.Yields g := by
  induction h with
  | nil => simp at hg
  | @cons s g' sheets groups hy _ ih =>
    rcases List.mem_cons.mp hg with rfl | hg
    · exact ⟨s, by simp, hy⟩
    · obtain ⟨t, ht, hy⟩ := ih hg
      exact ⟨t, by simp [ht], hy⟩

theorem wellFormed_of_yields (h : List.Forall₂ Sheet.Yields (documented config sheets) groups)
    (hn : (sheets.map Sheet.name).Nodup) : Grouped.WellFormed ⟨groups⟩ := by
  refine ⟨?_, ?_, ?_⟩
  · rw [Grouped.sheetNames, sheets_of_yields h]
    exact hn.sublist (documented_sublist.map Sheet.name)
  · intro g hg
    obtain ⟨s, hs, -, hy⟩ := exists_yields_of_mem h hg
    exact Sheet.records_ne_nil hy (mem_documented.mp hs).2.2
  · intro g hg r hr
    obtain ⟨s, -, hn, hy⟩ := exists_yields_of_mem h hg
    rw [hn]
    exact Sheet.sheet_of_mem_records hy hr

theorem documented_eq_nil_iff : documented config sheets = [] ↔
    ∀ s ∈ sheets, config.isSkipped s.name = false → s.formulaCells = [] := by
  rw [List.eq_nil_iff_forall_not_mem]
  simp only [mem_documented, ne_eq, not_and, not_not]

theorem flatMap_records_eq_nil_iff (h : Grouped.WellFormed ⟨groups⟩) :
    groups.flatMap Group.records = [] ↔ groups = [] := by
  rw [List.flatMap_eq_nil_iff]
  constructor
  · intro hr
    exact List.eq_nil_iff_forall_not_mem.mpr fun g hg => h.nonempty g hg (hr g hg)
  · rintro rfl
    simp

/-- The flat and the grouped view of a report agree. The groups are those of the kept sheets with
formulas, in workbook order, each with just the records of its sheet. Joined together they are the
extracted records, so the CSV form lists what the other two do. -/
theorem report_groups_agree (w : Workbook) (config : Config) {outcome : Outcome}
    (ok : w.report config = .ok outcome) :
    ∃ records, w.extract config = .ok records ∧ outcome = .ofRecords records ∧
      (Grouped.ofRecords records).records = records ∧
      (Grouped.ofRecords records).sheetNames = (documented config w.sheets).map Sheet.name ∧
      (Grouped.ofRecords records).sheetNames.Nodup ∧
      List.Forall₂ Sheet.Yields (documented config w.sheets) (Grouped.ofRecords records).groups ∧
      (outcome = .empty ↔
        ∀ s ∈ w.sheets, config.isSkipped s.name = false → s.formulaCells = []) ∧
      ∀ r, outcome = .report r → r.Shows config (.ofRecords records) := by
  obtain ⟨records, hx, rfl⟩ : ∃ records, w.extract config = .ok records ∧
      Outcome.ofRecords records = outcome := by
    rw [report] at ok
    cases hx : w.extract config with
    | error e => simp [hx, Except.map] at ok
    | ok records => exact ⟨records, rfl, by simpa [hx, Except.map] using ok⟩
  obtain ⟨groups, hr, hy⟩ := yields_of_extractSheets hx
  have hw := wellFormed_of_yields hy (names_of_extractSheets hx).1
  have hg : Grouped.ofRecords records = ⟨groups⟩ := hr ▸ hw.ofRecords_records
  have hback : (Grouped.ofRecords records).records = records := by rw [hg, hr, Grouped.records]
  refine ⟨records, hx, rfl, hback, ?_, ?_, ?_, ?_, ?_⟩
  · rw [hg]
    exact sheets_of_yields hy
  · rw [hg]
    exact hw.nodup
  · rwa [hg]
  · rw [Outcome.ofRecords_eq_empty_iff, hr, flatMap_records_eq_nil_iff hw, ← documented_eq_nil_iff]
    rw [← List.length_eq_zero_iff, ← List.length_eq_zero_iff, hy.length_eq]
  · intro r ho
    obtain rfl := Outcome.records_of_ofRecords ho
    exact Report.shows_ofRecords hback

/-- A workbook with a sheet without formulas and one that is left out, between two others. -/
def scattered : Workbook where
  path := "totals.ods"
  sheets := [(Sheet.empty "Sums").insert ⟨⟨1, 1⟩, none, some "=A1+C2"⟩, single,
    (Sheet.empty "Text").insert ⟨⟨0, 0⟩, some (.boolean true), none⟩, stray,
    (Sheet.empty "Last").insert ⟨⟨0, 0⟩, some (.boolean false), some "=B$7"⟩]

def scatteredRecords : List Record :=
  [⟨"Sums", "B2", "Col_1", "A+C"⟩, ⟨"Data", "A2", "Col_0", "Col_0*2"⟩, ⟨"Last", "A1", "false", "B"⟩]

theorem report_groups_agree_scattered :
    scattered.report withoutNotes = .ok (.ofRecords scatteredRecords) ∧
    (Grouped.ofRecords scatteredRecords).sheetNames = ["Sums", "Data", "Last"] ∧
    (Grouped.ofRecords scatteredRecords).records = scatteredRecords := by
  have hx : scattered.extract withoutNotes = .ok scatteredRecords := by cbv
  have ok : scattered.report withoutNotes = .ok (.ofRecords scatteredRecords) := by
    rw [report, hx]
    rfl
  have hd : (documented withoutNotes scattered.sheets).map Sheet.name =
      ["Sums", "Data", "Last"] := by cbv
  obtain ⟨records, hx', -, hback, hnames, -⟩ := report_groups_agree scattered withoutNotes ok
  obtain rfl : scatteredRecords = records := Except.ok.inj (hx.symm.trans hx')
  exact ⟨ok, hnames.trans hd, hback⟩

end Workbook

end FormulaDigest
