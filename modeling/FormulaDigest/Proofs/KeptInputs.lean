import FormulaDigest.Proofs.ExitCode
import FormulaDigest.Proofs.MadeDirectories

/-!
# Inputs that are kept

A report replaces whatever file has its name in the output directory, be it an input. That takes an
input that itself is named like a report: after an input's stem, with the extension of the format.
Every other input has its content after the run, and so has every input without an output directory.
-/
namespace FormulaDigest

namespace FileTree
variable {t : FileTree} {loc target : Location} {path input directory name segment : String}
  {content : Content}

/-- A place to which directories lead all the way from the root, the last one included. -/
def Entered (t : FileTree) (loc : Location) : Prop :=
  ∀ above, above <+: loc → t.node? above = some .directory

theorem entered_start (t : FileTree) (path : String) : t.Entered (t.start path) := by
  intro above ha
  have inside : above <+: t.home := by
    unfold start at ha
    split at ha
    · rw [List.prefix_nil.mp ha]
      exact List.nil_prefix
    · exact ha
  exact if_pos (List.isPrefixOf_iff_prefix.mpr inside)

theorem Entered.enter (h : t.Entered loc) (he : t.enter loc segment = .ok target) :
    t.Entered target := by
  unfold FileTree.enter at he
  split_ifs at he
  · cases he
    exact h
  · cases he
    exact fun above ha => h above (ha.trans loc.dropLast_prefix)
  · split at he
    case h_1 hd =>
      cases he
      intro above ha
      rcases List.prefix_concat_iff.mp ha with rfl | ha
      · exact hd
      · exact h above ha
    case h_2 => cases he
    case h_3 => cases he

theorem Entered.foldlM_enter {segments : List String} (h : t.Entered loc)
    (he : segments.foldlM t.enter loc = .ok target) : t.Entered target := by
  induction segments generalizing loc with
  | nil =>
    cases he
    exact h
  | cons segment segments ih =>
    rw [List.foldlM_cons] at he
    cases hs : t.enter loc segment with
    | error e => rw [hs] at he; cases he
    | ok entered =>
      rw [hs] at he
      exact ih (h.enter hs) he

/-- A path to a file ends with the name of the file. -/
theorem exists_fileName?_of_file (hl : t.locate path = .ok loc)
    (file : t.node? loc = some (.file content)) :
    ∃ above name, loc = above ++ [name] ∧ Path.fileName? path = some name := by
  obtain ⟨above, name, hs⟩ : ∃ above name, Path.segments path = above ++ [name] := by
    have nonempty : Path.segments path ≠ [] := by simp [Path.segments, List.splitOn_ne_nil]
    exact ⟨_, _, (List.dropLast_append_getLast nonempty).symm⟩
  have hf := follow_of_locate hl
  rw [hs, follow_concat] at hf
  cases hb : above.foldlM t.enter (t.start path) with
  | error e => rw [hb] at hf; cases hf
  | ok base =>
    rw [hb] at hf
    have entered : t.Entered base := (t.entered_start path).foldlM_enter hb
    by_cases step : name = "" ∨ name = "." ∨ name = ".."
    · -- Then the path ends with a step to a directory.
      have last : t.enter base name = .ok loc := by
        simpa only [Except.bind, follow, if_pos step] using hf
      rw [entered.enter last loc List.prefix_rfl] at file
      cases file
    · simp only [not_or] at step
      have hm : name ∈ Path.segments path := by simp [hs]
      have hn : Path.IsName name :=
        ⟨Path.notMem_of_mem_segments hm, step.1, step.2.1, step.2.2⟩
      exact ⟨base, name, follow_name hn hf, Path.fileName?_of_segments hs hn (by simp)⟩

/-- A file at the place of an entry of a directory has the entry's name, whatever path leads to
it. -/
theorem fileName?_eq_of_locate (hn : Path.IsName name) (present : t.read input = .ok content)
    (place : t.locate (Path.join directory name) = t.locate input) :
    Path.fileName? input = some name := by
  obtain ⟨loc, hl, file⟩ := read_eq_ok.mp present
  obtain ⟨above, own, rfl, hinput⟩ := exists_fileName?_of_file hl file
  obtain ⟨above', entry, he, hentry⟩ := exists_fileName?_of_file (place.trans hl) file
  obtain rfl : own = entry := List.singleton_inj.mp (List.append_inj' he rfl).2
  rw [hinput, ← hentry, Path.fileName?_join directory hn]

end FileTree

/-- The report of a file goes to the place of an input, which is named like a report then. -/
structure InTheWay (tree : FileTree) (args : Arguments) (file input : String) : Prop where
  place : ∃ directory, args.outputDir = some directory ∧
    tree.locate (outputPath directory file args.format) = tree.locate input
  name : Path.fileName? input = some (outputName file args.format)
  extension : Path.extension? input = some args.format.extension

section
variable {args : Arguments} {tree : FileTree} {file input directory : String} {content : Content}

theorem inTheWay_of_locate (present : tree.read input = .ok content)
    (hdir : args.outputDir = some directory)
    (place : tree.locate (outputPath directory file args.format) = tree.locate input) :
    InTheWay tree args file input := by
  have name : Path.fileName? input = some (outputName file args.format) :=
    FileTree.fileName?_eq_of_locate (isName_outputName file args.format) present place
  refine ⟨⟨directory, hdir, place⟩, name, ?_⟩
  rw [Path.extension?, name, Option.bind_some, splitExtension_outputName]

/-- A file that does not keep its content is in the way of a report. -/
theorem Delivered.read_turns_or_inTheWay {ε : Type} (config : Config) (d : Delivered)
    (entries : List (String × Except ε Outcome)) (present : d.tree.read input = .ok content) :
    (entries.foldl (turn args config) d).tree.read input = .ok content ∨
      ∃ file r, (file, .ok (.report r)) ∈ entries ∧ InTheWay d.tree args file input := by
  obtain ⟨loc, hl, held⟩ := FileTree.read_eq_ok.mp present
  cases hdir : args.outputDir with
  | none =>
    left
    rwa [(turns_of_print hdir config d entries).2]
  | some directory =>
    by_cases same : (entries.foldl (turn args config) d).tree.node? loc = d.tree.node? loc
    · left
      have locate := ((turns_of_write hdir config d entries).2 input loc).mpr hl
      exact FileTree.read_eq_ok.mpr ⟨loc, locate, same.trans held⟩
    · right
      obtain ⟨before, file, r, after, text, written, rfl, -, -, place⟩ :=
        exists_turn_of_node?_ne hdir same
      exact ⟨file, r, by simp, inTheWay_of_locate present hdir (place.trans hl.symm)⟩

end

theorem keeps_setUp (tree : FileTree) (args : Arguments) : (setUp tree args).1.Keeps tree := by
  unfold setUp
  split
  · exact .refl tree
  · unfold prepareOutput
    cases args.outputDir with
    | none => exact .refl tree
    | some path => exact FileTree.keeps_createDirectory tree path

theorem read_runFiles_or_inTheWay {args : Arguments} {tree : FileTree} {input : String}
    {content : Content} (config : Config) (present : tree.read input = .ok content) :
    (runFiles args config tree).tree.read input = .ok content ∨
      ∃ file ∈ args.files, ∃ r, processFile tree config file = .ok (.report r) ∧
        InTheWay tree args file input := by
  have final : (runFiles args config tree).tree =
      (emitReports args config (args.files.map (processFile tree config)) tree).1.tree := rfl
  rw [final, emitReports, deliverAll_fst, entries_runFiles]
  rcases Delivered.read_turns_or_inTheWay config ⟨"", tree⟩ _ present with
    kept | ⟨file, r, hm, inTheWay⟩
  · exact .inl kept
  · obtain ⟨own, hf, he⟩ := List.mem_map.mp hm
    obtain ⟨rfl, outcome⟩ := Prod.mk.inj he
    exact .inr ⟨own, hf, r, outcome, inTheWay⟩

/-- After the delivery of any outcomes, and after any run of the program, a file has the content it
had, unless it is in the way of the report of some input. -/
theorem emitReports_keeps_inputs {tree : FileTree} {input : String} {content : Content}
    (present : tree.read input = .ok content) :
    (∀ (ε : Type) args config (outcomes : List (Except ε Outcome)),
      (emitReports args config outcomes tree).1.tree.read input = .ok content ∨
        ∃ file r, (file, .ok (.report r)) ∈ args.files.zip outcomes ∧
          InTheWay tree args file input) ∧
    ∀ arguments, (run arguments tree).tree.read input = .ok content ∨
      ∃ args config made, Arguments.parse arguments = .ok args ∧
        setUp tree args = (made, .ok config) ∧
        ∃ file ∈ args.files, ∃ r, processFile made config file = .ok (.report r) ∧
          InTheWay made args file input := by
  constructor
  · intro ε args config outcomes
    rw [emitReports, deliverAll_fst]
    exact Delivered.read_turns_or_inTheWay config ⟨"", tree⟩ _ present
  · intro arguments
    unfold run
    split
    · exact .inl present
    · exact .inl present
    · exact .inl present
    case h_4 args parsed =>
      have kept := (keeps_setUp tree args).read present
      cases hs : setUp tree args with
      | mk made result =>
        rw [hs] at kept
        cases result with
        | error e => exact .inl kept
        | ok config =>
          rcases read_runFiles_or_inTheWay config kept with kept | found
          · exact .inl kept
          · exact .inr ⟨args, config, made, parsed, hs, found⟩

/-- A workbook in the output directory that is named like a report, and one beside it. -/
def crowded : FileTree :=
  (shelf.set ["work", "out", "budget.csv"] (.file (.workbook budget))).set ["work", "budget.ods"]
    (.file (.workbook budget))

theorem emitReports_keeps_inputs_beside :
    (emitReports (filed ["budget.ods"]) {} [(.ok (.report budgetReport) : Except String Outcome)]
        crowded).1.tree.read "budget.ods" = .ok (.workbook budget) ∧
      (run ["-f", "csv", "-o", "out", "budget.ods", "out/budget.csv"] crowded).tree.read
        "budget.ods" = .ok (.workbook budget) := by
  have present : crowded.read "budget.ods" = .ok (.workbook budget) := rfl
  have apart : ∀ tree args file, args.format = .csv → ¬ InTheWay tree args file "budget.ods" := by
    intro tree args file hf inTheWay
    have extension := inTheWay.extension
    rw [hf] at extension
    revert extension
    decide
  obtain ⟨delivered, whole⟩ := emitReports_keeps_inputs present
  constructor
  · rcases delivered String (filed ["budget.ods"]) {} [.ok (.report budgetReport)] with
      kept | ⟨file, r, -, inTheWay⟩
    · exact kept
    · exact absurd inTheWay (apart _ _ _ rfl)
  · rcases whole ["-f", "csv", "-o", "out", "budget.ods", "out/budget.csv"] with
      kept | ⟨args, config, made, parsed, -, file, -, r, -, inTheWay⟩
    · exact kept
    · obtain rfl : filed ["budget.ods", "out/budget.csv"] = args := Except.ok.inj parsed
      exact absurd inTheWay (apart _ _ _ rfl)

theorem read_crowded_overwritten {ε : Type} :
    (emitReports (filed ["out/budget.csv"]) {}
        [(.ok (.report budgetReport) : Except ε Outcome)] crowded).1.tree.read "out/budget.csv" =
      .ok (.plain "Sheet,Address,Column,Formula\nPlan,A2,Cost,Cost*2\n".toUTF8) := by
  generalize htext : "Sheet,Address,Column,Formula\nPlan,A2,Cost,Cost*2\n" = text
  have rendered : budgetReport.render .csv {} "out/budget.csv" = .ok text := by
    rw [← htext]
    cbv
  have written : crowded.write "out/budget.csv" (.plain text.toUTF8) =
    .ok (crowded.set ["work", "out", "budget.csv"] (.file (.plain text.toUTF8))) := rfl
  have path : outputPath "out" "out/budget.csv" .csv = "out/budget.csv" := by decide
  have turn : Delivered.turn (filed ["out/budget.csv"]) {} ⟨"", crowded⟩
      ("out/budget.csv", (.ok (.report budgetReport) : Except ε Outcome)) =
        ⟨"", crowded.set ["work", "out", "budget.csv"] (.file (.plain text.toUTF8))⟩ := by
    simp only [Delivered.turn, Delivered.deliver, filed, rendered, Delivered.place, path, written,
      Except.map]
  have entries : (filed ["out/budget.csv"]).files.zip
      [(.ok (.report budgetReport) : Except ε Outcome)] =
        [("out/budget.csv", .ok (.report budgetReport))] := rfl
  rw [emitReports, deliverAll_fst, entries, List.foldl_cons, turn, List.foldl_nil]
  exact FileTree.read_of_write written

/-- The report of an input that is named like it replaces the input. -/
theorem input_overwritten :
    crowded.read "out/budget.csv" = .ok (.workbook budget) ∧
      (let outcomes : List (Except String Outcome) := [.ok (.report budgetReport)]
      (emitReports (filed ["out/budget.csv"]) {} outcomes crowded).1.tree.read "out/budget.csv" ≠
        .ok (.workbook budget)) ∧
      (run ["-f", "csv", "-o", "out", "out/budget.csv"] crowded).tree.read "out/budget.csv" ≠
        .ok (.workbook budget) := by
  have processed : processFile crowded {} "out/budget.csv" = .ok (.report budgetReport) := by
    have opened : crowded.readWorkbook "out/budget.csv" = .ok (budgetBook "out/budget.csv") := rfl
    simp only [processFile, opened, report_budgetBook]
  have delivered : (run ["-f", "csv", "-o", "out", "out/budget.csv"] crowded).tree =
      (emitReports (filed ["out/budget.csv"]) {} [processFile crowded {} "out/budget.csv"]
        crowded).1.tree := rfl
  refine ⟨rfl, ?_, ?_⟩
  · intro outcomes
    rw [read_crowded_overwritten]
    simp
  · rw [delivered, processed, read_crowded_overwritten]
    simp

end FormulaDigest
