import FormulaDigest.Program
import FormulaDigest.Proofs.DeliveryFrame

/-!
# Exit codes

A refused command line and a configuration that cannot be used end a run before anything is
written. Behind the set-up every file succeeds or fails for itself: deliveries make no directory
and take none away, so the first tree tells already which reports can be written.
-/
namespace FormulaDigest

section
variable {tree made : FileTree} {args : Arguments} {config : Config} {path : String}

end

namespace FileTree

/-- Trees with the same directories, whatever files they hold. -/
structure SameDirectories (t' t : FileTree) : Prop where
  forth : t'.Extends t
  back : t.Extends t'

namespace SameDirectories
variable {t t' t'' : FileTree} {path : String} {content : Content} {e : FileError}

theorem refl (t : FileTree) : t.SameDirectories t :=
  ⟨⟨rfl, fun _ h => h⟩, ⟨rfl, fun _ h => h⟩⟩

theorem trans (h' : t''.SameDirectories t') (h : t'.SameDirectories t) : t''.SameDirectories t where
  forth := ⟨h'.forth.home.trans h.forth.home,
    fun loc here => h'.forth.directories loc (h.forth.directories loc here)⟩
  back := ⟨h.back.home.trans h'.back.home,
    fun loc here => h.back.directories loc (h'.back.directories loc here)⟩

theorem symm (h : t'.SameDirectories t) : t.SameDirectories t' := ⟨h.back, h.forth⟩

end SameDirectories
end FileTree

section
variable {ε : Type} {args : Arguments} {config : Config} {tree : FileTree} {file : String}

namespace Delivered

end Delivered

end

section
variable {args : Arguments} {config : Config} {tree : FileTree}

/-- A run delivers to every file the outcome of its own workbook. -/
theorem entries_runFiles (args : Arguments) (config : Config) (tree : FileTree) :
    args.files.zip (args.files.map (processFile tree config)) =
      args.files.map fun file => (file, processFile tree config file) :=
  List.map_prod_left_eq_zip.symm

end

def budget : WorkbookFile where
  format := .ods
  sheets := [⟨"Plan", [{ position := ⟨0, 0⟩, datum := .text "Cost" },
    { position := ⟨1, 0⟩, formula := "of:=[.A1]*2" }]⟩]

def budgetBook (path : String) : Workbook :=
  ⟨path, budget.sheets.map fun s => Sheet.ofGrids s.name s.values s.formulas⟩

def budgetReport : Report := ⟨[⟨"Plan", "A2", "Cost", "Cost*2"⟩], by simp⟩

theorem report_budgetBook (path : String) :
    (budgetBook path).report {} = .ok (.report budgetReport) := by
  cbv

/-- A command line for reports in the output directory. -/
def filed (files : List String) : Arguments where
  files := files
  config := none
  format := .csv
  outputDir := some "out"
  quiet := false

end FormulaDigest
