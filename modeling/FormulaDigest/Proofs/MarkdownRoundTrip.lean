import FormulaDigest.MarkdownReading
import FormulaDigest.Proofs.Partition
import FormulaDigest.Proofs.Spelling

/-!
# Reading the Markdown report back

The layout mixes free text with its marks, but every block begins with a mark of its own and stands
on lines of its own. So the lines of a report can be read one block after the other, whatever
headings, rules or fences its texts look like, as long as no line of a formula ends the formula.
-/
namespace FormulaDigest

/-- One or more capital letters, followed by digits. -/
def IsAddress (text : String) : Prop :=
  ∃ letters digits, text.toList = letters ++ digits ∧ letters ≠ [] ∧
    (∀ c ∈ letters, c.isUpper = true) ∧ ∀ c ∈ digits, c.isDigit = true

theorem IsAddress.notMem {text : String} (h : IsAddress text) {c : Char} (hu : c.isUpper = false)
    (hd : c.isDigit = false) : c ∉ text.toList := by
  obtain ⟨letters, digits, ht, -, hl, hx⟩ := h
  rw [ht, List.mem_append]
  rintro (hc | hc)
  · simp [hl c hc] at hu
  · simp [hx c hc] at hd

theorem Position.isAddress_a1 (p : Position) : IsAddress p.a1 :=
  ⟨_, _, p.toList_a1, Column.letters_ne_nil _, fun _ => Column.isUpper_of_mem_letters,
    fun _ => isDigit_of_mem_rowDigits⟩

theorem newline_notMem_digits (n : Nat) : '\n' ∉ Nat.toDigits 10 n := by
  intro h
  exact absurd (Position.isDigit_of_mem_rowDigits h) (by decide)

namespace Markdown

variable {label title : String} {r : Record} {records : List Record} {number fuel : Nat}
  {rest : List Line}

/-- What a record must be for its entry to be read back. -/
structure Readable (r : Record) : Prop where
  sheet : '\n' ∉ r.sheet.toList
  column : '\n' ∉ r.column.toList
  address : IsAddress r.address
  formula : fence ∉ lines r.formula

/-! The lines of a report, block by block. -/

theorem splitOn_intercalate_blocks {texts : List (List Char)} (hne : texts ≠ []) :
    (['\n'].intercalate texts).splitOn '\n' = texts.flatMap (·.splitOn '\n') := by
  induction texts with
  | nil => exact absurd rfl hne
  | cons text texts ih =>
    cases texts with
    | nil => simp
    | cons next texts =>
      rw [List.intercalate_cons_cons, List.append_assoc, List.singleton_append,
        List.splitOn_append_cons_self, ih (List.cons_ne_nil _ _)]
      exact List.flatMap_cons.symm

theorem lines_render (report : Grouped) (title label : String) :
    lines (render report title label) = (blocks report title label).flatMap lines := by
  have hne : (blocks report title label).map String.toList ≠ [] := by simp [blocks]
  rw [lines, render, String.toList_intercalate]
  exact (splitOn_intercalate_blocks hne).trans (List.flatMap_map ..)

theorem lines_line {text : String} (h : '\n' ∉ text.toList) :
    lines (text ++ "\n") = [text.toList, []] := by
  have ht : (text ++ "\n").toList = text.toList ++ '\n' :: [] := by simp
  rw [lines, ht, List.splitOn_append_cons_self, List.splitOn_eq_singleton h, List.splitOn_nil]
  rfl

theorem lines_formula (formula : String) :
    lines ("```excel\n" ++ formula ++ "\n```\n") = opening :: (lines formula ++ [fence, []]) := by
  have ht : ("```excel\n" ++ formula ++ "\n```\n").toList =
      opening ++ '\n' :: (formula.toList ++ '\n' :: (fence ++ '\n' :: [])) := by
    have before : "```excel\n".toList = opening ++ ['\n'] := by decide
    have behind : "\n```\n".toList = '\n' :: (fence ++ ['\n']) := by decide
    rw [String.toList_append, String.toList_append, before, behind]
    simp only [List.append_assoc, List.cons_append, List.nil_append]
  have ho : opening.splitOn '\n' = [opening] := by decide
  have hf : fence.splitOn '\n' = [fence] := by decide
  rw [lines, ht]
  simp only [List.splitOn_append_cons_self, ho, hf]
  rfl

/-- The line above an entry. -/
def heading (number : Nat) (r : Record) : String :=
  entryMarker number ++ (r.column ++ " " ++ "(" ++ (r.address ++ ")"))

def entryLines (label : String) (number : Nat) (r : Record) : List Line :=
  (heading number r).toList :: [] :: label.toList :: [] :: opening ::
    (lines r.formula ++ fence :: [] :: rule :: [[]])

/-- The entries of a sheet, numbered from a given number on. -/
def entriesLines (label : String) (number : Nat) (records : List Record) : List Line :=
  (records.zipIdx number).flatMap fun numbered => entryLines label numbered.2 numbered.1

def sectionLines (label : String) (g : Group) : List Line :=
  ("## " ++ g.sheet).toList :: [] :: entriesLines label 1 g.records

theorem length_entryLines_pos (label : String) (number : Nat) (r : Record) :
    0 < (entryLines label number r).length := by simp [entryLines]

theorem length_sectionLines_pos (label : String) (g : Group) :
    0 < (sectionLines label g).length := by simp [sectionLines]

theorem newline_notMem_heading (number : Nat) (h : Readable r) :
    '\n' ∉ (heading number r).toList := by
  have ha : '\n' ∉ r.address.toList := h.address.notMem (by decide) (by decide)
  simp [heading, entryMarker, h.column, ha, newline_notMem_digits]

theorem lines_entry (hl : '\n' ∉ label.toList) (number : Nat) (h : Readable r) :
    (entry label number r).flatMap lines = entryLines label number r := by
  have hh : "### " ++ number.repr ++ ". " ++ r.column ++ " (" ++ r.address ++ ")\n" =
      heading number r ++ "\n" := by
    rw [← String.toList_inj]
    simp [heading, entryMarker]
  have hr : lines "---\n" = [rule, []] := by decide
  simp only [entry, List.flatMap_cons, List.flatMap_nil, hh, hr, lines_formula, lines_line hl,
    lines_line (newline_notMem_heading number h)]
  simp [entryLines]

theorem lines_sheetSection (hl : '\n' ∉ label.toList) {g : Group} (hs : '\n' ∉ g.sheet.toList)
    (h : ∀ r ∈ g.records, Readable r) :
    (sheetSection label g).flatMap lines = sectionLines label g := by
  have hh : '\n' ∉ ("## " ++ g.sheet).toList := by simp [hs]
  have he : ∀ numbered ∈ g.records.zipIdx 1, (entry label numbered.2 numbered.1).flatMap lines =
      entryLines label numbered.2 numbered.1 := by
    intro numbered hn
    exact lines_entry hl _ (h _ (List.fst_mem_of_mem_zipIdx hn))
  rw [sheetSection, List.flatMap_cons, lines_line hh, List.flatMap_assoc, List.flatMap_congr he]
  rfl

theorem lines_blocks (hl : '\n' ∉ label.toList) (ht : '\n' ∉ title.toList) {report : Grouped}
    (hs : ∀ g ∈ report.groups, '\n' ∉ g.sheet.toList)
    (h : ∀ g ∈ report.groups, ∀ r ∈ g.records, Readable r) :
    lines (render report title label) =
      ("# " ++ title).toList :: [] :: report.groups.flatMap (sectionLines label) := by
  have hh : '\n' ∉ ("# " ++ title).toList := by simp [ht]
  have hg : ∀ g ∈ report.groups, (sheetSection label g).flatMap lines = sectionLines label g :=
    fun g hg => lines_sheetSection hl (hs g hg) (h g hg)
  rw [lines_render, blocks, List.flatMap_cons, lines_line hh, List.flatMap_assoc,
    List.flatMap_congr hg]
  rfl

/-! What a reader makes of these lines. -/

theorem behind?_append (marker text : String) :
    behind? marker (marker ++ text).toList = some text.toList := by
  have hp : marker.toList.isPrefixOf (marker.toList ++ text.toList) = true :=
    List.isPrefixOf_iff_prefix.mpr (List.prefix_append _ _)
  rw [behind?, String.toList_append, if_pos hp, ← String.length_toList, List.drop_left]

/-- Whatever a column holds, its end is where the last parenthesis opens. -/
theorem caption?_heading (number : Nat) (h : Readable r) :
    caption? number (heading number r).toList = some (r.column, r.address) := by
  have ha : '(' ∉ (r.address ++ ")").toList := by
    have := h.address.notMem (c := '(') (by decide) (by decide)
    simp [this]
  have ht : (r.column ++ " " ++ "(" ++ (r.address ++ ")")).toList =
      (r.column ++ " ").toList ++ '(' :: (r.address ++ ")").toList := by simp
  rw [caption?, heading, behind?_append, ht, Option.bind_eq_bind, Option.bind_some,
    OpenFormula.splitLast?_append ha]
  simp

theorem entry?_entryLines (number : Nat) (h : Readable r) (rest : List Line) :
    entry? label r.sheet number (entryLines label number r ++ rest) = some (r, rest) := by
  have inside : ∀ line ∈ lines r.formula, decide (line ≠ fence) = true := by
    intro line hm
    rw [decide_eq_true_eq]
    rintro rfl
    exact h.formula hm
  have ended : ∀ line ∈ (fence :: [] :: rule :: [] :: rest).head?,
      decide (line ≠ fence) = false := by simp
  have hf : ['\n'].intercalate (lines r.formula) = r.formula.toList := List.intercalate_splitOn _
  have hx : entryLines label number r ++ rest = (heading number r).toList :: [] :: label.toList ::
      [] :: opening :: (lines r.formula ++ fence :: [] :: rule :: [] :: rest) := by
    simp [entryLines]
  rw [hx, entry?, caption?_heading number h, dropWhile_run inside ended, takeWhile_run inside ended,
    hf]
  simp [guard]

theorem atEntry_entryLines (label : String) (number : Nat) (r : Record) (rest : List Line) :
    atEntry (entryLines label number r ++ rest) = true := by
  have hh : (heading number r).toList = "### ".toList ++
      (number.repr ++ ". " ++ (r.column ++ " " ++ "(" ++ (r.address ++ ")"))).toList := by
    simp [heading, entryMarker]
  have hp : "### ".toList.isPrefixOf (heading number r).toList = true := by
    rw [hh, List.isPrefixOf_iff_prefix]
    exact List.prefix_append _ _
  rw [entryLines, List.cons_append, atEntry, hp]

theorem atEntry_sections (label : String) (groups : List Group) :
    atEntry (groups.flatMap (sectionLines label)) = false := by
  cases groups with
  | nil => rfl
  | cons g groups =>
    rw [List.flatMap_cons, sectionLines, List.cons_append, atEntry, String.toList_append]
    rfl

theorem entriesLines_cons (label : String) (number : Nat) (r : Record) (records : List Record) :
    entriesLines label number (r :: records) =
      entryLines label number r ++ entriesLines label (number + 1) records := by
  simp [entriesLines, List.zipIdx_cons]

/-- Parts that take at least one line each are not more than their lines, so to count the lines
gives enough fuel. -/
theorem length_le_flatMap {α : Type} {part : α → List Line} (filled : ∀ a, 0 < (part a).length)
    (parts : List α) : parts.length ≤ (parts.flatMap part).length := by
  rw [List.length_flatMap]
  have each : ∀ n ∈ parts.map fun a => (part a).length, 1 ≤ n := by
    intro n hn
    obtain ⟨a, -, rfl⟩ := List.mem_map.mp hn
    exact filled a
  simpa using List.length_le_sum_of_one_le _ each

theorem entries?_entriesLines {sheet : String} (enough : records.length < fuel)
    (h : ∀ r ∈ records, Readable r ∧ r.sheet = sheet) (ended : atEntry rest = false) :
    entries? label sheet fuel number (entriesLines label number records ++ rest) =
      some (records, rest) := by
  induction records generalizing fuel number with
  | nil =>
    cases fuel with
    | zero => simp at enough
    | succ fuel => simp [entriesLines, entries?, ended]
  | cons r records ih =>
    cases fuel with
    | zero => simp at enough
    | succ fuel =>
      obtain ⟨hr, hs⟩ := h r (by simp)
      have hrest : entries? label sheet fuel (number + 1)
          (entriesLines label (number + 1) records ++ rest) = some (records, rest) :=
        ih (by simpa using enough) fun r hm => h r (by simp [hm])
      rw [entriesLines_cons, List.append_assoc, entries?, atEntry_entryLines, if_pos rfl, ← hs,
        entry?_entryLines number hr, hs]
      simp [hrest]

theorem sections?_sectionLines (label : String) {groups : List Group}
    (enough : groups.length < fuel)
    (h : ∀ g ∈ groups, ∀ r ∈ g.records, Readable r ∧ r.sheet = g.sheet) :
    sections? label fuel (groups.flatMap (sectionLines label)) = some groups := by
  induction groups generalizing fuel with
  | nil =>
    cases fuel with
    | zero => simp at enough
    | succ fuel => rfl
  | cons g groups ih =>
    cases fuel with
    | zero => simp at enough
    | succ fuel =>
      have hrest : sections? label fuel (groups.flatMap (sectionLines label)) = some groups :=
        ih (by simpa using enough) fun g hm => h g (by simp [hm])
      have hlen : g.records.length ≤ (entriesLines label 1 g.records).length := by
        have := length_le_flatMap (fun numbered : Record × Nat =>
          length_entryLines_pos label numbered.2 numbered.1) (g.records.zipIdx 1)
        rwa [List.length_zipIdx] at this
      have hentries : entries? label g.sheet
          ((entriesLines label 1 g.records ++ groups.flatMap (sectionLines label)).length + 1) 1
          (entriesLines label 1 g.records ++ groups.flatMap (sectionLines label)) =
            some (g.records, groups.flatMap (sectionLines label)) :=
        entries?_entriesLines (by rw [List.length_append]; omega) (h g (by simp))
          (atEntry_sections label groups)
      rw [List.flatMap_cons, sectionLines, List.cons_append, List.cons_append, sections?,
        behind?_append]
      simp only [Option.bind_eq_bind, Option.bind_some, String.ofList_toList, hentries, hrest]
      rfl

theorem newline_notMem_sheet (h : ∀ r ∈ records, Readable r) {g : Group}
    (hg : g ∈ (Grouped.ofRecords records).groups) : '\n' ∉ g.sheet.toList := by
  have hm : g.sheet ∈ (records.map Record.sheet).eraseDups := by
    rw [← Grouped.sheetNames_ofRecords]
    exact List.mem_map_of_mem hg
  obtain ⟨r, hr, hs⟩ := List.mem_map.mp (List.mem_eraseDups.mp hm)
  exact hs ▸ (h r hr).sheet

theorem read?_render (hl : '\n' ∉ label.toList) (ht : '\n' ∉ title.toList)
    (h : ∀ r ∈ records, Readable r) :
    read? label (render (.ofRecords records) title label) = some (title, .ofRecords records) := by
  have inGroup : ∀ g ∈ (Grouped.ofRecords records).groups, ∀ r ∈ g.records,
      Readable r ∧ r.sheet = g.sheet := by
    intro g hg r hr
    obtain ⟨hm, hs⟩ := Grouped.sheet_of_mem_ofRecords hg hr
    exact ⟨h r hm, hs⟩
  have enough := length_le_flatMap (length_sectionLines_pos label) (Grouped.ofRecords records).groups
  have hsections := sections?_sectionLines label (Nat.lt_succ_of_le enough) inGroup
  rw [read?, lines_blocks hl ht (fun g => newline_notMem_sheet h)
    fun g hg r hr => (inGroup g hg r hr).1]
  simp only [behind?_append, Option.bind_eq_bind, Option.bind_some, hsections, String.ofList_toList]
  rfl

end Markdown

/-! What holds of the texts in the reports of workbooks. -/

theorem Config.newline_notMem_title {config : Config} (ok : config.validate = .ok ()) :
    '\n' ∉ config.title.toList := by
  intro broken
  rw [validate, if_pos broken] at ok
  cases hd : config.delimiterByte <;> simp [hd] at ok <;> cases ok

namespace Headers

theorem get?_ofList_concat (entries : List (Nat × String)) (entry : Nat × String) (column : Nat) :
    (ofList (entries ++ [entry])).get? column =
      if entry.1 = column then some entry.2 else (ofList entries).get? column := by
  simp [ofList, get?, List.foldl_append, Std.ExtTreeMap.getElem?_insert]

theorem mem_of_get?_ofList {entries : List (Nat × String)} {column : Nat} {name : String}
    (h : (ofList entries).get? column = some name) : (column, name) ∈ entries := by
  induction entries using List.reverseRecOn with
  | nil => simp [ofList, get?] at h
  | append_singleton entries entry ih =>
    rw [get?_ofList_concat] at h
    split_ifs at h with same
    · simp [← same, ← Option.some.inj h]
    · simp [ih h]

theorem newline_notMem_singleLine (text : String) : '\n' ∉ (singleLine text).toList := by
  rw [singleLine, String.toList_ofList]
  intro h
  obtain ⟨c, -, hc⟩ := List.mem_map.mp (Blank.mem_of_mem_trim h)
  split_ifs at hc with newline
  · exact absurd hc (by decide)
  · exact newline hc

theorem newline_notMem_columnName (s : Sheet) (column : Nat) :
    '\n' ∉ (columnName s column).toList := by
  rw [columnName]
  split
  · exact newline_notMem_singleLine _
  · intro h
    rw [placeholder, String.toList_append, List.mem_append, Nat.toList_repr] at h
    rcases h with h | h
    · exact absurd h (by decide)
    · exact newline_notMem_digits column h

/-- Every header of a sheet is a single line. -/
theorem newline_notMem_resolve {s : Sheet} {column : Nat} {name : String}
    (h : (resolve s).get? column = some name) : '\n' ∉ name.toList := by
  rw [resolve] at h
  split at h
  · simp [empty, get?] at h
  · obtain ⟨column, -, he⟩ := List.mem_map.mp (mem_of_get?_ofList h)
    obtain ⟨-, rfl⟩ := Prod.mk.inj he
    exact newline_notMem_columnName s column

end Headers

theorem Sheet.texts_of_mem_records {s : Sheet} {records : List Record} {r : Record}
    (ok : s.records = .ok records) (hr : r ∈ records) :
    r.sheet = s.name ∧ '\n' ∉ r.column.toList ∧ IsAddress r.address := by
  refine ⟨sheet_of_mem_records ok hr, ?_⟩
  obtain ⟨-, rfl⟩ := extract_eq_ok_iff.mp ok
  obtain ⟨c, -, hc⟩ := List.mem_filterMap.mp hr
  obtain ⟨formula, -, rfl⟩ := Option.map_eq_some_iff.mp hc
  refine ⟨?_, c.position.isAddress_a1⟩
  cases hn : (Headers.resolve s).get? c.position.column with
  | none => simp
  | some name => simpa using Headers.newline_notMem_resolve hn

/-- A program's report reads back unless a sheet name or the label holds a line break, or a line of
a formula is a fence. -/
theorem Workbook.read?_markdown {w : Workbook} {config : Config} {r : Report}
    (valid : config.validate = .ok ()) (ok : w.report config = .ok (.report r))
    (hl : '\n' ∉ config.label.toList) (hs : ∀ s ∈ w.sheets, '\n' ∉ s.name.toList)
    (hf : ∀ record ∈ r.records, Markdown.fence ∉ Markdown.lines record.formula) :
    Markdown.read? config.label (r.markdown config) = some (config.title, r.grouped) := by
  obtain ⟨groups, hr, hy⟩ := yields_of_extractSheets (extract_of_report ok)
  apply Markdown.read?_render hl (Config.newline_notMem_title valid)
  intro record hm
  obtain ⟨g, hg, hrg⟩ := List.mem_flatMap.mp (hr ▸ hm)
  obtain ⟨s, hd, -, hown⟩ := exists_yields_of_mem hy hg
  obtain ⟨own, column, address⟩ := Sheet.texts_of_mem_records hown hrg
  exact ⟨own ▸ hs s (mem_documented.mp hd).1, column, address, hf record hm⟩

namespace Markdown

/-- Whatever the texts of a report look like, its lines give back the title and the groups, so two
reports that read alike are alike. Titles of valid configurations and headers of sheets are the
single lines that this asks for. -/
theorem render_determines {label title : String} {records : List Record}
    (hl : '\n' ∉ label.toList) (ht : '\n' ∉ title.toList) (h : ∀ r ∈ records, Readable r) :
    read? label (render (.ofRecords records) title label) = some (title, .ofRecords records) ∧
    (∀ (title' : String) (records' : List Record), '\n' ∉ title'.toList →
      (∀ r ∈ records', Readable r) →
      render (.ofRecords records) title label = render (.ofRecords records') title' label →
      title = title' ∧ Grouped.ofRecords records = .ofRecords records') ∧
    (∀ config : Config, config.validate = .ok () → '\n' ∉ config.title.toList) ∧
    ∀ (s : Sheet) (column : Nat) (name : String),
      (Headers.resolve s).get? column = some name → '\n' ∉ name.toList := by
  refine ⟨read?_render hl ht h, ?_, fun _ => Config.newline_notMem_title,
    fun _ _ _ => Headers.newline_notMem_resolve⟩
  intro title' records' ht' h' same
  have read := read?_render hl ht h
  have read' := read?_render hl ht' h'
  rw [same, read', Option.some.injEq, Prod.mk.injEq] at read
  exact ⟨read.1.symm, read.2.symm⟩

/-- Texts that look like marks, in two sheets that take turns. -/
def lookalikes : List Record :=
  [⟨"# a", "B2", "x (A1)", "1+\n---\n\n## b\n ```"⟩, ⟨"", "A1", "```excel", ""⟩,
    ⟨"# a", "AA10", "", "```excel\n### 1. (A1)\n"⟩]

theorem render_determines_lookalikes :
    (∀ r ∈ lookalikes, Readable r) ∧
    read? "---" (render (.ofRecords lookalikes) "## a" "---") =
      some ("## a", ⟨[⟨"# a", lookalikes.filter (·.sheet = "# a")⟩,
        ⟨"", [⟨"", "A1", "```excel", ""⟩]⟩]⟩) := by
  have first : IsAddress "A1" := ⟨['A'], ['1'], by simp⟩
  have second : IsAddress "B2" := ⟨['B'], ['2'], by simp⟩
  have last : IsAddress "AA10" := ⟨['A', 'A'], ['1', '0'], by simp⟩
  have readable : ∀ r ∈ lookalikes, Readable r := by
    simp only [lookalikes, List.forall_mem_cons, List.not_mem_nil, false_implies, implies_true]
    exact ⟨⟨by decide, by decide, second, by decide⟩, ⟨by decide, by decide, first, by decide⟩,
      ⟨by decide, by decide, last, by decide⟩, trivial⟩
  have grouped : Grouped.ofRecords lookalikes = ⟨[⟨"# a", lookalikes.filter (·.sheet = "# a")⟩,
      ⟨"", [⟨"", "A1", "```excel", ""⟩]⟩]⟩ := by decide
  refine ⟨readable, ?_⟩
  rw [← grouped]
  exact (render_determines (by decide) (by decide) readable).1

end Markdown

end FormulaDigest
