import FormulaDigest.Delivery
import FormulaDigest.Proofs.FileWrites
import FormulaDigest.Proofs.PathGrammar

/-!
# Output paths

The file for an input is one name in the output directory, the stem of the input with the extension
of the format, and no other name there leads to its place. So two reports meet only under one name.
-/
namespace FormulaDigest

namespace FileTree
variable {t : FileTree} {directory name other : String} {loc : Location}

theorem start_join (hn : Path.IsName name) :
    t.start (Path.join directory name) = t.start directory := by
  have hname : name.toList.head? ≠ some '/' := by
    intro h
    exact hn.oneSegment (List.mem_of_mem_head? h)
  by_cases empty : directory = ""
  · simp [start, Path.join, empty, hname]
  · obtain ⟨c, cs, hd⟩ := List.exists_cons_of_ne_nil (by simpa using empty : directory.toList ≠ [])
    rw [Path.join, if_neg empty]
    split <;> simp [start, hd]

theorem follow_of_locate {path : String} (h : t.locate path = .ok loc) :
    t.follow (t.start path) (Path.segments path) = .ok loc := by
  unfold locate at h
  split at h
  · cases h
  · split_ifs at h
    exact h

theorem follow_concat (start : Location) (above : List String) :
    t.follow start (above ++ [name]) =
      (above.foldlM t.enter start).bind fun base => t.follow base [name] := by
  induction above generalizing start with
  | nil => rfl
  | cons segment above ih =>
    obtain ⟨next, rest, hr⟩ : ∃ next rest, above ++ [name] = next :: rest := by
      cases above <;> exact ⟨_, _, rfl⟩
    rw [List.cons_append, hr, follow, List.foldlM_cons, ← hr]
    cases t.enter start segment with
    | error e => rfl
    | ok entered => exact ih entered

theorem follow_name (hn : Path.IsName name) {base : Location} (h : t.follow base [name] = .ok loc) :
    loc = base ++ [name] := by
  rw [follow, if_neg (by simp [hn.nonempty, hn.notHere, hn.notUp])] at h
  split_ifs at h
  exact (Except.ok.inj h).symm

/-- The entry of a directory is found where the path of the directory leads. -/
theorem exists_base_of_locate (hn : Path.IsName name)
    (h : t.locate (Path.join directory name) = .ok loc) :
    ∃ base, (Path.segments directory).foldlM t.enter (t.start directory) = .ok base ∧
      loc = base ++ [name] := by
  obtain ⟨above, segments_eq, segments_directory⟩ := Path.segments_join directory
  have hf := follow_of_locate h
  rw [segments_eq name hn.oneSegment, start_join hn, follow_concat] at hf
  cases hb : above.foldlM t.enter (t.start directory) with
  | error e => rw [hb] at hf; cases hf
  | ok base =>
    rw [hb] at hf
    refine ⟨base, ?_, follow_name hn hf⟩
    rcases segments_directory with hd | hd
    · rw [hd, hb]
    · rw [hd, List.foldlM_append, hb]
      rfl

/-- Two names in one directory lead to two places. -/
theorem name_eq_of_locate (hn : Path.IsName name) (ho : Path.IsName other)
    (h : t.locate (Path.join directory name) = .ok loc)
    (h' : t.locate (Path.join directory other) = .ok loc) : name = other := by
  obtain ⟨base, hb, hl⟩ := exists_base_of_locate hn h
  obtain ⟨base', hb', hl'⟩ := exists_base_of_locate ho h'
  obtain rfl := Except.ok.inj (hb.symm.trans hb')
  simpa using hl.symm.trans hl'

end FileTree

/-- The name of the report file for an input. -/
def outputName (input : String) (format : Format) : String :=
  (Path.stem? input).getD "report" ++ "." ++ format.extension

variable {input stem : String}

theorem outputPath_eq_join (directory input : String) (format : Format) :
    outputPath directory input format = Path.join directory (outputName input format) := rfl

/-- The stem of the report for an input: that of the name in which the input ends, where there is
one. -/
inductive ReportStem (input : String) : String → Prop
  | named {name stem : String} (ends : Path.EndsIn input name) (cut : Path.Cut name stem) :
    ReportStem input stem
  | unnamed (noName : ∀ name, ¬ Path.EndsIn input name) : ReportStem input "report"

theorem reportStem_iff :
    ReportStem input stem ↔ (Path.stem? input).getD "report" = stem := by
  constructor
  · rintro (⟨ends, cut⟩ | noName)
    · simp [Path.stem?, ends.fileName?_eq, cut.stem_eq]
    · have nothing : Path.fileName? input = none :=
        Option.eq_none_iff_forall_ne_some.mpr fun name hn =>
          noName name (Path.fileName?_eq_some_iff.mp hn)
      simp [Path.stem?, nothing]
  · rintro rfl
    cases hn : Path.fileName? input with
    | none =>
      simp only [Path.stem?, hn, Option.map_none, Option.getD_none]
      refine .unnamed fun name ends => ?_
      simp [ends.fileName?_eq] at hn
    | some name =>
      simp only [Path.stem?, hn, Option.map_some, Option.getD_some]
      exact .named (Path.fileName?_eq_some_iff.mp hn) (Path.cut_iff.mpr rfl)

theorem ReportStem.notMem (h : ReportStem input stem) : '/' ∉ stem.toList := by
  cases h with
  | named ends cut => exact fun hc => ends.isName.oneSegment (cut.mem hc)
  | unnamed noName => decide

theorem ReportStem.ne_empty (h : ReportStem input stem) : stem ≠ "" := by
  cases h with
  | named ends cut => exact cut.ne_empty ends.isName.nonempty
  | unnamed noName => decide

theorem isName_outputName (input : String) (format : Format) :
    Path.IsName (outputName input format) := by
  have stem : ReportStem input ((Path.stem? input).getD "report") := reportStem_iff.mpr rfl
  have hlong : 3 ≤ (outputName input format).length := by
    have hx : 2 ≤ format.extension.length := by cases format <;> decide
    simp only [outputName, String.length_append]
    have : ".".length = 1 := rfl
    omega
  refine ⟨?_, ?_, ?_, ?_⟩
  · have hx : '/' ∉ format.extension.toList := by cases format <;> decide
    simpa [outputName] using ⟨stem.notMem, hx⟩
  all_goals
    intro h
    rw [h] at hlong
    exact absurd hlong (by decide)

theorem splitExtension_outputName (input : String) (format : Format) :
    Path.splitExtension (outputName input format) =
      ((Path.stem? input).getD "report", some format.extension) :=
  Path.splitExtension_append (reportStem_iff.mpr rfl).ne_empty (by cases format <;> decide)

example : outputPath "out/" "a/./.b.tar.gz/.//" .markdown = "out/.b.tar.md" := by decide

example : outputPath "" "a/.." .csv = "report.csv" := by decide

end FormulaDigest
