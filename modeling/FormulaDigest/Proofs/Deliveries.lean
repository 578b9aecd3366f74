import FormulaDigest.Proofs.OutputPath

/-!
# Delivered reports

A run of deliveries is a sequence of turns, one for each file, and a turn writes at most the report
of its file. A report stays in the output directory until a later one goes to the same path, so at
the end each path holds the last report that went there. Of two inputs with one stem only the second
one's report is left, and neither of them fails.
-/
namespace FormulaDigest

section
variable {ε : Type} (args : Arguments) (config : Config) (d : Delivered)

/-- The state after the turn of one file. -/
def Delivered.turn (entry : String × Except ε Outcome) : Delivered :=
  match d.deliver args config entry.1 entry.2 with
  | .ok (after, _) => after
  | .error _ => d

def Delivered.receipt (entry : String × Except ε Outcome) : Receipt ε :=
  ⟨entry.1, (d.deliver args config entry.1 entry.2).map Prod.snd⟩

theorem deliverAll_cons (entry : String × Except ε Outcome)
    (rest : List (String × Except ε Outcome)) :
    deliverAll args config d (entry :: rest) =
      ((deliverAll args config (d.turn args config entry) rest).1,
        d.receipt args config entry ::
          (deliverAll args config (d.turn args config entry) rest).2) := by
  unfold Delivered.turn Delivered.receipt
  rw [deliverAll]
  cases d.deliver args config entry.1 entry.2 <;> rfl

theorem deliverAll_fst (entries : List (String × Except ε Outcome)) :
    (deliverAll args config d entries).1 = entries.foldl (Delivered.turn args config) d := by
  induction entries generalizing d with
  | nil => rfl
  | cons entry entries ih => rw [deliverAll_cons, List.foldl_cons, ih]

/-- Each file has the receipt from its turn after the files before it. -/
theorem receipt_mem_deliverAll (before : List (String × Except ε Outcome))
    (entry : String × Except ε Outcome) (after : List (String × Except ε Outcome)) :
    (before.foldl (Delivered.turn args config) d).receipt args config entry ∈
      (deliverAll args config d (before ++ entry :: after)).2 := by
  induction before generalizing d with
  | nil =>
    rw [List.nil_append, deliverAll_cons]
    exact List.mem_cons_self
  | cons first before ih =>
    rw [List.cons_append, deliverAll_cons]
    exact List.mem_cons_of_mem _ (ih _)

end

namespace Delivered
variable {ε : Type} {args : Arguments} {config : Config} {d : Delivered} {directory : String}

theorem deliver_report (hdir : args.outputDir = some directory) {file : String} {r : Report}
    {result : Delivered × Outcome}
    (h : d.deliver args config file (.ok (.report r) : Except ε Outcome) = .ok result) :
    ∃ text tree, r.render args.format config file = .ok text ∧
      d.tree.write (outputPath directory file args.format) (.plain text.toUTF8) = .ok tree ∧
      result = ({ d with tree }, .report r) := by
  rw [deliver] at h
  split at h
  case h_1 => cases h
  case h_2 text hr =>
    simp only [place, hdir] at h
    cases hw : d.tree.write (outputPath directory file args.format) (.plain text.toUTF8) with
    | error e => rw [hw] at h; cases h
    | ok tree => rw [hw] at h; exact ⟨text, tree, hr, hw, (Except.ok.inj h).symm⟩

/-- A turn changes nothing, or it writes the report of its file. -/
theorem turn_cases (config : Config) (d : Delivered) (hdir : args.outputDir = some directory)
    (entry : String × Except ε Outcome) :
    d.turn args config entry = d ∨
      ∃ r text tree, entry.2 = .ok (.report r) ∧ r.render args.format config entry.1 = .ok text ∧
        d.tree.write (outputPath directory entry.1 args.format) (.plain text.toUTF8) = .ok tree ∧
        d.turn args config entry = { d with tree } := by
  obtain ⟨file, outcome⟩ := entry
  match outcome with
  | .error e => exact .inl rfl
  | .ok .empty => exact .inl rfl
  | .ok (.report r) =>
    cases hd : d.deliver args config file (.ok (.report r) : Except ε Outcome) with
    | error e => exact .inl (by simp [turn, hd])
    | ok result =>
      obtain ⟨text, tree, hr, hw, rfl⟩ := deliver_report hdir hd
      exact .inr ⟨r, text, tree, rfl, hr, hw, by simp [turn, hd]⟩

section
variable (hdir : args.outputDir = some directory) {file : String} {content : Content}
include hdir

/-- A file stays what it is in the turn of an input whose report goes elsewhere. -/
theorem read_turn (entry : String × Except ε Outcome)
    (apart : ∀ r, entry.2 = .ok (.report r) →
      outputPath directory entry.1 args.format ≠ outputPath directory file args.format)
    (h : d.tree.read (outputPath directory file args.format) = .ok content) :
    (d.turn args config entry).tree.read (outputPath directory file args.format) =
      .ok content := by
  rcases turn_cases config d hdir entry with
    same | ⟨r, text, tree, houtcome, -, hw, written⟩
  · rwa [same]
  · rw [written]
    refine FileTree.read_of_write_of_ne hw (fun hl => apart r houtcome ?_) h
    -- Otherwise the two paths lead to one place, and then their names are the same.
    obtain ⟨loc, hloc, -⟩ := FileTree.read_eq_ok.mp h
    have hname := FileTree.name_eq_of_locate (isName_outputName entry.1 args.format)
      (isName_outputName file args.format) (hl.trans hloc) hloc
    rw [outputPath_eq_join, outputPath_eq_join, hname]

theorem read_turns (entries : List (String × Except ε Outcome))
    (apart : ∀ entry ∈ entries, ∀ r, entry.2 = .ok (.report r) →
      outputPath directory entry.1 args.format ≠ outputPath directory file args.format)
    (h : d.tree.read (outputPath directory file args.format) = .ok content) :
    (entries.foldl (turn args config) d).tree.read (outputPath directory file args.format) =
      .ok content := by
  induction entries generalizing d with
  | nil => exact h
  | cons entry entries ih =>
    have step : (d.turn args config entry).tree.read (outputPath directory file args.format) =
        .ok content := read_turn hdir entry (apart entry List.mem_cons_self) h
    exact ih (fun later hl => apart later (List.mem_cons_of_mem _ hl)) step

/-- A report that is delivered and not replaced is what the file at its path holds. -/
theorem read_report_turns {r : Report} {after : List (String × Except ε Outcome)}
    (accepted : (d.receipt args config
      (file, (.ok (.report r) : Except ε Outcome))).hasFailed = false)
    (last : ∀ later ∈ after, ∀ r', later.2 = .ok (.report r') →
      outputPath directory later.1 args.format ≠ outputPath directory file args.format) :
    ∃ text, r.render args.format config file = .ok text ∧
      (((file, .ok (.report r)) :: after).foldl (turn args config) d).tree.read
        (outputPath directory file args.format) = .ok (.plain text.toUTF8) := by
  cases hd : d.deliver args config file (.ok (.report r) : Except ε Outcome) with
  | error e => simp [receipt, hd, Receipt.hasFailed, Except.map] at accepted
  | ok result =>
    obtain ⟨text, tree, hr, hw, rfl⟩ := deliver_report hdir hd
    have own : d.turn args config (file, (.ok (.report r) : Except ε Outcome)) =
        { d with tree } := by simp [turn, hd]
    refine ⟨text, hr, ?_⟩
    rw [List.foldl_cons, own]
    exact read_turns hdir after last (FileTree.read_of_write hw)

end

end Delivered

/-- If nothing fails, the last report for a path of the output directory is what that file holds in
the end. -/
theorem emitReports_last_report {ε : Type} {args : Arguments} {config : Config}
    {outcomes : List (Except ε Outcome)} {tree : FileTree} {directory file : String} {r : Report}
    {before after : List (String × Except ε Outcome)} (hdir : args.outputDir = some directory)
    (fine : ∀ receipt ∈ (emitReports args config outcomes tree).2, receipt.hasFailed = false)
    (entries : args.files.zip outcomes = before ++ (file, .ok (.report r)) :: after)
    (last : ∀ later ∈ after, ∀ r', later.2 = .ok (.report r') →
      outputPath directory later.1 args.format ≠ outputPath directory file args.format) :
    ∃ text, r.render args.format config file = .ok text ∧
      (emitReports args config outcomes tree).1.tree.read
        (outputPath directory file args.format) = .ok (.plain text.toUTF8) := by
  rw [emitReports, entries] at fine ⊢
  have accepted := fine _ (receipt_mem_deliverAll args config ⟨"", tree⟩ before _ after)
  rw [deliverAll_fst, List.foldl_append]
  exact Delivered.read_report_turns hdir accepted last

/-- Two workbooks of one name in different directories. -/
def books : Arguments where
  files := ["a/book.xlsx", "b/book.xlsx"]
  config := none
  format := .csv
  outputDir := some "out"
  quiet := true

def shelf : FileTree := (FileTree.empty ["work"]).set ["work", "out"] .directory

def firstReport : Report := ⟨[⟨"S", "A1", "X", "1"⟩], by simp⟩

def secondReport : Report := ⟨[⟨"S", "A2", "Y", "2"⟩], by simp⟩

/-- A third book of the same name has no formulas, so the second report stays. -/
theorem emitReports_last_report_second :
    let args := { books with files := books.files ++ ["c/book.xlsx"] }
    let outcomes : List (Except String Outcome) :=
      [.ok (.report firstReport), .ok (.report secondReport), .ok .empty]
    (∀ receipt ∈ (emitReports args {} outcomes shelf).2, receipt.hasFailed = false) ∧
      ∃ text, secondReport.render .csv {} "b/book.xlsx" = .ok text ∧
        (emitReports args {} outcomes shelf).1.tree.read "out/book.csv" =
          .ok (.plain text.toUTF8) := by
  intro args outcomes
  have fine : ∀ receipt ∈ (emitReports args {} outcomes shelf).2, receipt.hasFailed = false :=
    by decide
  have entries : args.files.zip outcomes = [("a/book.xlsx", .ok (.report firstReport))] ++
      ("b/book.xlsx", .ok (.report secondReport)) :: [("c/book.xlsx", .ok .empty)] := rfl
  have hdir : args.outputDir = some "out" := rfl
  exact ⟨fine, emitReports_last_report hdir fine entries (by simp)⟩

/-- Of the two reports only the second one is left, though neither input fails. -/
theorem first_report_lost :
    let outcomes : List (Except String Outcome) :=
      [.ok (.report firstReport), .ok (.report secondReport)]
    (∀ receipt ∈ (emitReports books {} outcomes shelf).2, receipt.hasFailed = false) ∧
      ("a/book.xlsx", .ok (.report firstReport)) ∈ books.files.zip outcomes ∧
      ∀ text, firstReport.render .csv {} "a/book.xlsx" = .ok text →
        (emitReports books {} outcomes shelf).1.tree.read (outputPath "out" "a/book.xlsx" .csv) ≠
          .ok (.plain text.toUTF8) := by
  intro outcomes
  have fine : ∀ receipt ∈ (emitReports books {} outcomes shelf).2, receipt.hasFailed = false := by
    decide
  refine ⟨fine, List.mem_cons_self, fun text htext hread => ?_⟩
  have accepted := fine _ (receipt_mem_deliverAll books {} ⟨"", shelf⟩
    [("a/book.xlsx", .ok (.report firstReport))] ("b/book.xlsx", .ok (.report secondReport)) [])
  have last : ∀ later ∈ ([] : List (String × Except String Outcome)), ∀ r',
      later.2 = .ok (.report r') →
        outputPath "out" later.1 .csv ≠ outputPath "out" "b/book.xlsx" .csv := by simp
  obtain ⟨text', htext', hread'⟩ := Delivered.read_report_turns rfl accepted last
  rw [emitReports, deliverAll_fst] at hread
  have same : text' = text := by
    have h := hread'.symm.trans hread
    simpa [String.toByteArray_inj] using h
  have first : firstReport.render .csv {} "a/book.xlsx" =
      .ok "Sheet,Address,Column,Formula\nS,A1,X,1\n" := by cbv
  have second : secondReport.render .csv {} "b/book.xlsx" =
      .ok "Sheet,Address,Column,Formula\nS,A2,Y,2\n" := by cbv
  rw [same, ← htext] at htext'
  exact absurd (second.symm.trans (htext'.trans first)) (by decide)

end FormulaDigest
