import FormulaDigest.Proofs.Grouping

/-!
# Grouping as a partition

In whatever order the sheets of the records come, grouping opens one group for each sheet where it
is first seen, and the group holds the records of the sheet in their order. No record is lost.
-/
namespace FormulaDigest

namespace Grouped

variable {records : List Record} {r : Record} {names : List String}

theorem eraseDups_concat (names : List String) (name : String) :
    (names ++ [name]).eraseDups =
      if name ∈ names then names.eraseDups else names.eraseDups ++ [name] := by
  rw [List.eraseDups_append]
  by_cases seen : name ∈ names
  · simp [List.removeAll, seen]
  · simp [List.removeAll, seen, List.eraseDups_cons]

theorem nodup_eraseDups (names : List String) : names.eraseDups.Nodup := by
  induction names using List.reverseRecOn with
  | nil => simp
  | append_singleton names name ih =>
    rw [eraseDups_concat]
    split_ifs with seen
    · exact ih
    · rw [List.nodup_append]
      refine ⟨ih, by simp, fun a ha b hb => ?_⟩
      rw [List.mem_singleton] at hb
      rintro rfl
      exact seen (hb ▸ List.mem_eraseDups.mp ha)

/-- Of groups that are listed by name, the one of the record's sheet grows by the record. -/
theorem insertRecord_map {f : String → List Record} (distinct : names.Nodup)
    (fresh : r.sheet ∉ names → f r.sheet = []) :
    insertRecord r (names.map fun name => ⟨name, f name⟩) =
      (if r.sheet ∈ names then names else names ++ [r.sheet]).map fun name =>
        ⟨name, f name ++ if r.sheet = name then [r] else []⟩ := by
  induction names with
  | nil => simp [insertRecord, fresh]
  | cons name names ih =>
    rw [List.nodup_cons] at distinct
    rw [List.map_cons, insertRecord]
    by_cases own : name = r.sheet
    · -- The names behind are others, so their groups stay.
      have others : ∀ other ∈ names, r.sheet ≠ other := by
        rintro other ho rfl
        exact distinct.1 (own ▸ ho)
      have kept : names.map (fun other => Group.mk other (f other)) = names.map fun other =>
          Group.mk other (f other ++ if r.sheet = other then [r] else []) := by
        apply List.map_congr_left
        intro other ho
        rw [if_neg (others other ho), List.append_nil]
      rw [if_pos own, if_pos (by simp [own]), List.map_cons, if_pos own.symm, kept]
    · have rest := ih distinct.2 fun hn => fresh (by simp [Ne.symm own, hn])
      rw [if_neg own, rest]
      by_cases seen : r.sheet ∈ names
      · simp [seen, Ne.symm own]
      · simp [seen, Ne.symm own]

/-- Grouping gives each sheet, in the order of first appearance, the sublist of its records. -/
theorem groups_ofRecords (records : List Record) :
    (ofRecords records).groups = (records.map Record.sheet).eraseDups.map fun name =>
      ⟨name, records.filter (·.sheet = name)⟩ := by
  induction records using List.reverseRecOn with
  | nil => rfl
  | append_singleton records r ih =>
    have fresh : r.sheet ∉ (records.map Record.sheet).eraseDups →
        records.filter (·.sheet = r.sheet) = [] := by
      rw [List.mem_eraseDups]
      intro new
      rw [List.filter_eq_nil_iff]
      intro other ho same
      exact new (List.mem_map.mpr ⟨other, ho, by simpa using same⟩)
    rw [ofRecords_concat, ih, insertRecord_map (nodup_eraseDups _) fresh, List.map_append,
      List.map_singleton, eraseDups_concat]
    simp only [List.mem_eraseDups]
    apply List.map_congr_left
    intro name _
    by_cases same : r.sheet = name <;> simp [same]

theorem sheetNames_ofRecords (records : List Record) :
    (ofRecords records).sheetNames = (records.map Record.sheet).eraseDups := by
  rw [sheetNames, groups_ofRecords, List.map_map]
  exact List.map_id _

theorem nodup_sheetNames_ofRecords (records : List Record) :
    (ofRecords records).sheetNames.Nodup := by
  rw [sheetNames_ofRecords]
  exact nodup_eraseDups _

theorem records_of_mem_ofRecords {g : Group} (h : g ∈ (ofRecords records).groups) :
    g.records = records.filter (·.sheet = g.sheet) := by
  rw [groups_ofRecords, List.mem_map] at h
  obtain ⟨name, -, rfl⟩ := h
  rfl

theorem sheet_of_mem_ofRecords {g : Group} (h : g ∈ (ofRecords records).groups)
    (hr : r ∈ g.records) : r ∈ records ∧ r.sheet = g.sheet := by
  rw [records_of_mem_ofRecords h, List.mem_filter] at hr
  exact ⟨hr.1, by simpa using hr.2⟩

/-- Names stand in the order in which they were first seen. -/
theorem pairwise_idxOf_eraseDups (names : List String) :
    names.eraseDups.Pairwise fun first later => names.idxOf first < names.idxOf later := by
  induction names using List.reverseRecOn with
  | nil => simp
  | append_singleton names name ih =>
    -- A name that was seen keeps its place when another one is appended.
    have place : ∀ seen ∈ names.eraseDups, (names ++ [name]).idxOf seen = names.idxOf seen :=
      fun seen hs => List.idxOf_append_of_mem (List.mem_eraseDups.mp hs)
    have before : names.eraseDups.Pairwise fun first later =>
        (names ++ [name]).idxOf first < (names ++ [name]).idxOf later := by
      refine ih.imp_of_mem fun hf hl lt => ?_
      rwa [place _ hf, place _ hl]
    rw [eraseDups_concat]
    split_ifs with seen
    · exact before
    · rw [List.pairwise_append]
      refine ⟨before, List.pairwise_singleton _ _, fun first hf later hl => ?_⟩
      obtain rfl := List.mem_singleton.mp hl
      rw [place _ hf, List.idxOf_append_of_notMem seen]
      have inside : names.idxOf first < names.length :=
        List.idxOf_lt_length_of_mem (List.mem_eraseDups.mp hf)
      omega

theorem mem_sheetNames_ofRecords {name : String} :
    name ∈ (ofRecords records).sheetNames ↔ ∃ r ∈ records, r.sheet = name := by
  rw [sheetNames_ofRecords, List.mem_eraseDups, List.mem_map]

theorem filter_ne_nil_iff {name : String} :
    records.filter (·.sheet = name) ≠ [] ↔ ∃ r ∈ records, r.sheet = name := by
  simp [List.filter_eq_nil_iff]

/-- A sheet without records has no group. -/
theorem get?_ofRecords (records : List Record) (name : String) :
    (ofRecords records).get? name =
      if ∃ r ∈ records, r.sheet = name then some (records.filter (·.sheet = name)) else none := by
  rw [get?]
  cases found : (ofRecords records).groups.find? (·.sheet = name) with
  | none =>
    have absent : ¬ ∃ r ∈ records, r.sheet = name := by
      rw [← mem_sheetNames_ofRecords, sheetNames, List.mem_map]
      rintro ⟨g, hg, hs⟩
      exact absurd hs (by simpa using List.find?_eq_none.mp found g hg)
    rw [if_neg absent, Option.map_none]
  | some g =>
    have hg : g ∈ (ofRecords records).groups := List.mem_of_find?_eq_some found
    obtain rfl : g.sheet = name := by simpa using List.find?_some found
    have present : ∃ r ∈ records, r.sheet = g.sheet :=
      mem_sheetNames_ofRecords.mp (List.mem_map_of_mem hg)
    rw [if_pos present, Option.map_some, records_of_mem_ofRecords hg]

theorem wellFormed_ofRecords (records : List Record) : (ofRecords records).WellFormed where
  nodup := nodup_sheetNames_ofRecords records
  nonempty g hg := by
    rw [records_of_mem_ofRecords hg, filter_ne_nil_iff]
    exact mem_sheetNames_ofRecords.mp (List.mem_map_of_mem hg)
  sheet g hg r hr := (sheet_of_mem_ofRecords hg hr).2

theorem perm_insertRecord (r : Record) (groups : List Group) :
    ((insertRecord r groups).flatMap Group.records).Perm (groups.flatMap Group.records ++ [r]) := by
  induction groups with
  | nil => simp [insertRecord]
  | cons g groups ih =>
    rw [insertRecord]
    split_ifs
    · simp only [List.flatMap_cons, List.append_assoc]
      exact List.perm_append_comm.append_left g.records
    · simp only [List.flatMap_cons, List.append_assoc]
      exact ih.append_left g.records

/-- The groups hold every record once. -/
theorem perm_records_ofRecords (records : List Record) :
    (ofRecords records).records.Perm records := by
  induction records using List.reverseRecOn with
  | nil => exact .nil
  | append_singleton records r ih =>
    have step := perm_insertRecord r (ofRecords records).groups
    rw [← ofRecords_concat] at step
    exact step.trans (ih.append_right [r])

/-- No record is lost or counted twice. -/
theorem sum_length_ofRecords (records : List Record) :
    ((ofRecords records).groups.map (·.records.length)).sum = records.length := by
  rw [← (perm_records_ofRecords records).length_eq, Grouped.records, List.length_flatMap]

theorem recordCount_ofRecords (records : List Record) :
    (ofRecords records).recordCount = records.length := by
  rw [recordCount, ← sum_length_ofRecords records, List.sum_eq_foldl, List.foldl_map]

theorem sheetCount_ofRecords (records : List Record) :
    (ofRecords records).sheetCount = (records.map Record.sheet).toFinset.card := by
  have names : (records.map Record.sheet).toFinset = (ofRecords records).sheetNames.toFinset := by
    ext name
    rw [sheetNames_ofRecords, List.mem_toFinset, List.mem_toFinset, List.mem_eraseDups]
  rw [names, List.toFinset_card_of_nodup (nodup_sheetNames_ofRecords records), sheetNames,
    List.length_map, sheetCount]

theorem isEmpty_ofRecords : (ofRecords records).isEmpty = true ↔ records = [] := by
  have lengths := (perm_records_ofRecords records).length_eq
  rw [isEmpty, List.isEmpty_iff]
  constructor
  · intro empty
    rw [Grouped.records, empty, List.flatMap_nil, List.length_nil] at lengths
    exact List.length_eq_zero_iff.mp lengths.symm
  · rintro rfl
    rfl

/-- Grouping is a stable partition. Each sheet that occurs has one group, in the order of first
appearance, with the records of the sheet in their order, and a look-up finds the groups and nothing
else. The groups hold every record once, and to group them again changes nothing. -/
theorem ofRecords_partitions (records : List Record) :
    (∀ name, name ∈ (ofRecords records).sheetNames ↔ ∃ r ∈ records, r.sheet = name) ∧
    (ofRecords records).sheetNames.Nodup ∧
    (ofRecords records).sheetNames.Pairwise (fun first later =>
      (records.map Record.sheet).idxOf first < (records.map Record.sheet).idxOf later) ∧
    (∀ g ∈ (ofRecords records).groups, g.records = records.filter (·.sheet = g.sheet)) ∧
    (∀ name, (ofRecords records).get? name =
      if ∃ r ∈ records, r.sheet = name then some (records.filter (·.sheet = name)) else none) ∧
    (ofRecords records).records.Perm records ∧
    (ofRecords records).recordCount = records.length ∧
    (ofRecords records).sheetCount = (records.map Record.sheet).toFinset.card ∧
    ((ofRecords records).isEmpty = true ↔ records = []) ∧
    ofRecords (ofRecords records).records = ofRecords records := by
  refine ⟨fun name => mem_sheetNames_ofRecords, nodup_sheetNames_ofRecords records, ?_,
    fun g => records_of_mem_ofRecords, get?_ofRecords records, perm_records_ofRecords records,
    recordCount_ofRecords records, sheetCount_ofRecords records, isEmpty_ofRecords,
    (wellFormed_ofRecords records).ofRecords_records⟩
  rw [sheetNames_ofRecords]
  exact pairwise_idxOf_eraseDups _

example : ofRecords [⟨"Z", "A1", "", "1"⟩, ⟨"M", "A1", "", "2"⟩, ⟨"Z", "A2", "", "3"⟩] =
    ⟨[⟨"Z", [⟨"Z", "A1", "", "1"⟩, ⟨"Z", "A2", "", "3"⟩]⟩, ⟨"M", [⟨"M", "A1", "", "2"⟩]⟩]⟩ := by
  decide

end Grouped

/-- The records of an extraction come group by group. -/
theorem Workbook.records_ofRecords {w : Workbook} {config : Config} {records : List Record}
    (ok : w.extract config = .ok records) : (Grouped.ofRecords records).records = records := by
  obtain ⟨groups, hr, hy⟩ := yields_of_extractSheets ok
  have formed := wellFormed_of_yields hy (names_of_extractSheets ok).1
  have grouped : Grouped.ofRecords records = ⟨groups⟩ := hr ▸ formed.ofRecords_records
  rw [grouped, hr, Grouped.records]

theorem Workbook.extract_of_report {w : Workbook} {config : Config} {r : Report}
    (ok : w.report config = .ok (.report r)) : w.extract config = .ok r.records := by
  rw [report] at ok
  cases hx : w.extract config with
  | error e => rw [hx] at ok; cases ok
  | ok records =>
    rw [hx] at ok
    rw [Outcome.records_of_ofRecords (Except.ok.inj ok)]

end FormulaDigest
