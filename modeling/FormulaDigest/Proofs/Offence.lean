import FormulaDigest.Proofs.Traversal

/-!
# The first offending sheet

A workbook is extracted sheet by sheet until one offends: it repeats an earlier name, or it is not
left out and contradicts itself. Without an offence the records of the kept sheets are joined in
workbook order; otherwise the first offence is all that is reported.
-/
namespace FormulaDigest

theorem Config.isSkipped_setSkip (c : Config) (name sheet : String) (skip : Bool) :
    (c.setSkip name skip).isSkipped sheet = if name = sheet then skip else c.isSkipped sheet := by
  simp only [isSkipped, setSkip, Std.ExtTreeMap.getElem?_insert,
    Std.LawfulEqCmp.compare_eq_iff_eq]
  split <;> rfl

theorem Sheet.sheet_of_mem_records {s : Sheet} {records : List Record} {r : Record}
    (ok : s.records = .ok records) (hr : r ∈ records) : r.sheet = s.name := by
  obtain ⟨-, rfl⟩ := extract_eq_ok_iff.mp ok
  obtain ⟨c, -, hc⟩ := List.mem_filterMap.mp hr
  obtain ⟨formula, -, rfl⟩ := Option.map_eq_some_iff.mp hc
  rfl

theorem Sheet.sheet_of_records_eq_error {s : Sheet} {e : Malformed} (h : s.records = .error e) :
    e.sheet = s.name := by
  obtain ⟨fault, -, rfl⟩ := extract_eq_error_iff.mp h
  rfl

namespace Workbook

variable {config : Config} {seen : List String} {s : Sheet} {sheets : List Sheet} {i : Nat}

/-- The sheet at an index has a name that was seen before, there or on an earlier sheet. -/
def Repeats (seen : List String) (sheets : List Sheet) (i : Nat) : Prop :=
  ∃ s, sheets[i]? = some s ∧ (s.name ∈ seen ∨ s.name ∈ (sheets.take i).map Sheet.name)

/-- The sheet at an index is not left out and is refused. -/
def Refuses (config : Config) (sheets : List Sheet) (i : Nat) : Prop :=
  ∃ s, sheets[i]? = some s ∧ config.isSkipped s.name = false ∧ ∃ e, s.records = .error e

def Offends (config : Config) (seen : List String) (sheets : List Sheet) (i : Nat) : Prop :=
  Repeats seen sheets i ∨ Refuses config sheets i

theorem repeats_zero : Repeats seen (s :: sheets) 0 ↔ s.name ∈ seen := by
  simp [Repeats]

theorem repeats_succ : Repeats seen (s :: sheets) (i + 1) ↔ Repeats (s.name :: seen) sheets i := by
  simp only [Repeats, List.getElem?_cons_succ, List.take_succ_cons, List.map_cons, List.mem_cons]
  grind

theorem offends_zero : Offends config seen (s :: sheets) 0 ↔
    s.name ∈ seen ∨ config.isSkipped s.name = false ∧ ∃ e, s.records = .error e := by
  simp [Offends, repeats_zero, Refuses]

theorem offends_succ : Offends config seen (s :: sheets) (i + 1) ↔
    Offends config (s.name :: seen) sheets i := by
  simp [Offends, repeats_succ, Refuses]

/-- What a sheet adds to the records of its workbook. -/
def contribution (config : Config) (s : Sheet) : Except Malformed (List Record) :=
  if config.isSkipped s.name then .ok [] else s.records

theorem contribution_of_skipped (h : config.isSkipped s.name = true) :
    contribution config s = .ok [] := if_pos h

theorem contribution_of_kept (h : config.isSkipped s.name = false) :
    contribution config s = s.records := if_neg (by simp [h])

theorem contribution_eq_error_iff {e : Malformed} : contribution config s = .error e ↔
    config.isSkipped s.name = false ∧ s.records = .error e := by
  cases h : config.isSkipped s.name <;> simp [contribution, h]

theorem extractSheets_of_mem (h : s.name ∈ seen) :
    extractSheets config seen (s :: sheets) = .error ⟨s.name, .repeatedName⟩ := by
  rw [extractSheets, if_pos h]

/-- One step of the extraction: a new name, then the sheet's own contribution, then the rest. -/
theorem extractSheets_of_notMem (h : s.name ∉ seen) :
    extractSheets config seen (s :: sheets) = (contribution config s).bind fun part =>
      (extractSheets config (s.name :: seen) sheets).map (part ++ ·) := by
  rw [extractSheets, if_neg h]
  cases hs : config.isSkipped s.name with
  | true =>
    rw [contribution_of_skipped hs]
    cases extractSheets config (s.name :: seen) sheets <;> rfl
  | false =>
    rw [contribution_of_kept hs]
    cases s.records with
    | error e => rfl
    | ok part => cases extractSheets config (s.name :: seen) sheets <;> rfl

/-- The sheets that are not left out. -/
def kept (config : Config) (sheets : List Sheet) : List Sheet :=
  sheets.filter fun s => !config.isSkipped s.name

theorem kept_of_skipped (h : config.isSkipped s.name = true) :
    kept config (s :: sheets) = kept config sheets := by
  simp [kept, h]

theorem kept_of_kept (h : config.isSkipped s.name = false) :
    kept config (s :: sheets) = s :: kept config sheets := by
  simp [kept, h]

theorem extractSheets_of_not_offends (h : ∀ i, ¬ Offends config seen sheets i) :
    ∃ parts, List.Forall₂ (fun s part => s.records = .ok part) (kept config sheets) parts ∧
      extractSheets config seen sheets = .ok parts.flatten := by
  induction sheets generalizing seen with
  | nil => exact ⟨[], .nil, rfl⟩
  | cons s sheets ih =>
    have hn : s.name ∉ seen := fun hs => h 0 (offends_zero.mpr (.inl hs))
    obtain ⟨parts, hp, hx⟩ := ih fun i hi => h (i + 1) (offends_succ.mpr hi)
    rw [extractSheets_of_notMem hn, hx]
    cases hs : config.isSkipped s.name with
    | true =>
      rw [kept_of_skipped hs, contribution_of_skipped hs]
      exact ⟨parts, hp, rfl⟩
    | false =>
      rw [kept_of_kept hs, contribution_of_kept hs]
      cases hr : s.records with
      | error e => exact (h 0 (offends_zero.mpr (.inr ⟨hs, e, hr⟩))).elim
      | ok part => exact ⟨part :: parts, .cons hr hp, rfl⟩

/-- The least offending index decides the error. -/
theorem extractSheets_of_offends (hi : Offends config seen sheets i)
    (least : ∀ j < i, ¬ Offends config seen sheets j) :
    ∃ s fault, sheets[i]? = some s ∧ extractSheets config seen sheets = .error ⟨s.name, fault⟩ ∧
      (Repeats seen sheets i → fault = .repeatedName) ∧
      (¬ Repeats seen sheets i → s.records = .error ⟨s.name, fault⟩) := by
  induction sheets generalizing seen i with
  | nil => rcases hi with ⟨s, hs, -⟩ | ⟨s, hs, -⟩ <;> simp at hs
  | cons s sheets ih =>
    cases i with
    | zero =>
      rw [repeats_zero]
      by_cases hs : s.name ∈ seen
      · exact ⟨s, .repeatedName, rfl, extractSheets_of_mem hs, fun _ => rfl, absurd hs⟩
      · obtain ⟨hk, ⟨sheet, fault⟩, he⟩ := (offends_zero.mp hi).resolve_left hs
        obtain rfl : sheet = s.name := Sheet.sheet_of_records_eq_error he
        refine ⟨s, fault, rfl, ?_, fun h => absurd h hs, fun _ => he⟩
        rw [extractSheets_of_notMem hs, contribution_of_kept hk, he]
        rfl
    | succ i =>
      have h0 := least 0 (by omega)
      rw [offends_zero, not_or] at h0
      obtain ⟨t, fault, ht, hx, hr⟩ := ih (offends_succ.mp hi)
        fun j hj hoff => least (j + 1) (by omega) (offends_succ.mpr hoff)
      refine ⟨t, fault, ht, ?_, by rwa [repeats_succ]⟩
      rw [extractSheets_of_notMem h0.1, hx]
      cases hc : contribution config s with
      | error e => exact absurd (contribution_eq_error_iff.mp hc) fun h => h0.2 ⟨h.1, e, h.2⟩
      | ok part => rfl

/-- Two sheets that a configuration tells apart at most by contents it leaves out. -/
def Alike (config : Config) (s t : Sheet) : Prop :=
  s.name = t.name ∧ (config.isSkipped s.name = false → s = t)

theorem Alike.contribution_eq {s t : Sheet} (h : Alike config s t) :
    contribution config s = contribution config t := by
  cases hs : config.isSkipped s.name with
  | true => rw [contribution_of_skipped hs, contribution_of_skipped (h.1 ▸ hs)]
  | false => rw [h.2 hs]

theorem extractSheets_congr {sheets' : List Sheet}
    (h : List.Forall₂ (Alike config) sheets sheets') :
    extractSheets config seen sheets = extractSheets config seen sheets' := by
  induction h generalizing seen with
  | nil => rfl
  | @cons s t sheets sheets' hst _ ih =>
    by_cases hs : s.name ∈ seen
    · rw [extractSheets_of_mem hs, extractSheets_of_mem (hst.1 ▸ hs), hst.1]
    · rw [extractSheets_of_notMem hs, extractSheets_of_notMem (hst.1 ▸ hs), hst.contribution_eq,
        ih, hst.1]

theorem extractSheets_cons_eq_ok {records : List Record}
    (ok : extractSheets config seen (s :: sheets) = .ok records) :
    s.name ∉ seen ∧ ∃ part others, contribution config s = .ok part ∧
      extractSheets config (s.name :: seen) sheets = .ok others ∧ records = part ++ others := by
  by_cases hs : s.name ∈ seen
  · simp [extractSheets_of_mem hs] at ok
  rw [extractSheets_of_notMem hs] at ok
  refine ⟨hs, ?_⟩
  cases hc : contribution config s with
  | error e => simp [hc, Except.bind] at ok
  | ok part =>
    cases hx : extractSheets config (s.name :: seen) sheets with
    | error e => simp [hc, hx, Except.bind, Except.map] at ok
    | ok others =>
      simp only [hc, hx, Except.bind, Except.map, Except.ok.injEq] at ok
      exact ⟨part, others, rfl, rfl, ok.symm⟩

theorem sheet_of_mem_contribution {part : List Record} {r : Record}
    (ok : contribution config s = .ok part) (hr : r ∈ part) : r.sheet = s.name := by
  cases hs : config.isSkipped s.name with
  | true =>
    rw [contribution_of_skipped hs, Except.ok.injEq] at ok
    simp [← ok] at hr
  | false =>
    rw [contribution_of_kept hs] at ok
    exact Sheet.sheet_of_mem_records ok hr

theorem contribution_setSkip {part : List Record} (name : String)
    (ok : contribution config s = .ok part) :
    contribution (config.setSkip name true) s = .ok (part.filter (·.sheet ≠ name)) := by
  by_cases hn : name = s.name
  · have hs : (config.setSkip name true).isSkipped s.name = true := by
      rw [Config.isSkipped_setSkip, if_pos hn]
    have hf : part.filter (·.sheet ≠ name) = [] := by
      rw [List.filter_eq_nil_iff]
      intro r hr
      simp [sheet_of_mem_contribution ok hr, hn]
    rw [contribution_of_skipped hs, hf]
  · have hs : (config.setSkip name true).isSkipped s.name = config.isSkipped s.name := by
      rw [Config.isSkipped_setSkip, if_neg hn]
    have hf : part.filter (·.sheet ≠ name) = part := by
      rw [List.filter_eq_self]
      intro r hr
      simpa [sheet_of_mem_contribution ok hr] using Ne.symm hn
    rw [contribution, hs, hf]
    exact ok

/-- One more skip takes away the records of that sheet and no others. -/
theorem extractSheets_setSkip {records : List Record} (name : String)
    (ok : extractSheets config seen sheets = .ok records) :
    extractSheets (config.setSkip name true) seen sheets =
      .ok (records.filter (·.sheet ≠ name)) := by
  induction sheets generalizing seen records with
  | nil =>
    rw [extractSheets, Except.ok.injEq] at ok
    rw [extractSheets, ← ok, List.filter_nil]
  | cons s sheets ih =>
    obtain ⟨hs, part, others, hc, hx, rfl⟩ := extractSheets_cons_eq_ok ok
    rw [extractSheets_of_notMem hs, contribution_setSkip name hc, ih hx, List.filter_append]
    rfl

/-- Without an offence a workbook yields the records of its kept sheets in order, and otherwise
the error of the first offence. What a configuration leaves out has no influence, and leaving out
one more name takes away its records alone. -/
theorem extract_first_offence (w : Workbook) (config : Config) :
    ((∀ i, ¬ Offends config [] w.sheets i) →
      ∃ parts, List.Forall₂ (fun s part => s.records = .ok part) (kept config w.sheets) parts ∧
        w.extract config = .ok parts.flatten) ∧
    (∀ i, Offends config [] w.sheets i → (∀ j < i, ¬ Offends config [] w.sheets j) →
      ∃ s fault, w.sheets[i]? = some s ∧ w.extract config = .error ⟨s.name, fault⟩ ∧
        (Repeats [] w.sheets i → fault = .repeatedName) ∧
        (¬ Repeats [] w.sheets i → s.records = .error ⟨s.name, fault⟩)) ∧
    (∀ v : Workbook, List.Forall₂ (Alike config) w.sheets v.sheets →
      v.extract config = w.extract config) ∧
    ∀ name records, w.extract config = .ok records →
      w.extract (config.setSkip name true) = .ok (records.filter (·.sheet ≠ name)) := by
  refine ⟨extractSheets_of_not_offends, fun i => extractSheets_of_offends, ?_, ?_⟩
  · exact fun v hv => (extractSheets_congr hv).symm
  · exact fun name records => extractSheets_setSkip name

def single : Sheet := (Sheet.empty "Data").insert ⟨⟨1, 0⟩, none, some "=A1*2"⟩

/-- A sheet that stores a cell and declares no range. -/
def stray : Sheet := (Sheet.empty "Notes").put ⟨0, 0⟩ ⟨⟨3, 3⟩, none, some "=A1"⟩

def withoutNotes : Config := ({} : Config).setSkip "Notes" true

theorem extract_first_offence_notes :
    (Workbook.mk "" [single, stray, stray]).extract withoutNotes =
      .error ⟨"Notes", .repeatedName⟩ ∧
    (Workbook.mk "" [single, stray]).extract withoutNotes =
      .ok [⟨"Data", "A2", "Col_0", "Col_0*2"⟩] ∧
    (Workbook.mk "" [single, stray]).extract (withoutNotes.setSkip "Data" true) = .ok [] := by
  have hd : single.records = .ok [⟨"Data", "A2", "Col_0", "Col_0*2"⟩] := by cbv
  have hs : withoutNotes.isSkipped stray.name = true := by
    rw [withoutNotes, Config.isSkipped_setSkip]
    exact if_pos rfl
  have hn : stray.name ∉ [single.name] := by decide
  have h0 (sheets : List Sheet) : ¬ Offends withoutNotes [] (single :: sheets) 0 := by
    simp [offends_zero, hd]
  have h1 (sheets : List Sheet) : ¬ Offends withoutNotes [] (single :: stray :: sheets) 1 := by
    rw [offends_succ, offends_zero, hs]
    simp only [hn, Bool.true_eq_false, false_and, or_self, not_false_eq_true]
  have h2 : Repeats [] [single, stray, stray] 2 := ⟨stray, rfl, by simp⟩
  have least : ∀ j < 2, ¬ Offends withoutNotes [] [single, stray, stray] j := by
    intro j hj
    obtain rfl | rfl : j = 0 ∨ j = 1 := by omega
    · exact h0 _
    · exact h1 _
  obtain ⟨s, fault, ht, hx, hr, -⟩ :=
    (extract_first_offence ⟨"", [single, stray, stray]⟩ withoutNotes).2.1 2 (.inl h2) least
  obtain rfl : stray = s := Option.some.inj ht
  obtain rfl := hr h2
  have hok : (Workbook.mk "" [single, stray]).extract withoutNotes =
      .ok [⟨"Data", "A2", "Col_0", "Col_0*2"⟩] := by cbv
  exact ⟨hx, hok, (extract_first_offence _ _).2.2.2 "Data" _ hok⟩

end Workbook

end FormulaDigest
