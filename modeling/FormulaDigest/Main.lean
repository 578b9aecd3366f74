import FormulaDigest.Program
import FormulaDigest.WorkbookText

/-!
# The command line

The program over the file system. The files that a command line names are loaded into a tree, the
run is computed, and what it changed in the tree is written back.
-/
namespace FormulaDigest

/-- The paths that a run looks at. -/
def sources (arguments : List String) : List String :=
  match Arguments.parse arguments with
  | .ok args => args.config.getD defaultConfigPath :: args.outputDir.toList ++ args.files
  | .error _ => []

/-- Adds the file at a path to a tree, if it can be read. -/
def loadInto (tree : FileTree) (path : String) : IO FileTree := do
  match ← (IO.FS.readBinFile path).toBaseIO with
  | .ok bytes => return tree.place path (.ofBytes bytes)
  | .error _ => return tree

def store (change : String × Node) : IO Unit :=
  match change.2 with
  | .directory => IO.FS.createDirAll change.1
  | .file (.plain bytes) => IO.FS.writeBinFile change.1 bytes
  | .file (.workbook _) => pure ()

/-- Runs the program over the file system and gives its exit code. -/
def execute (arguments : List String) : IO UInt32 := do
  let home := (Path.segments (← IO.currentDir).toString).filter (· ≠ "")
  let tree ← (sources arguments).foldlM loadInto (FileTree.empty home)
  let exit := run arguments tree
  (tree.changes exit.tree).forM store
  IO.print exit.out
  IO.eprint exit.err
  return exit.code.toUInt32

end FormulaDigest

def main (arguments : List String) : IO UInt32 :=
  FormulaDigest.execute arguments
