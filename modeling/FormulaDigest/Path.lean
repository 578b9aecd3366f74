/-!
# Paths

Path texts as a Unix system reads them: segments between slashes, of which empty ones and single
dots count for nothing. A leading dot does not start an extension.
-/
namespace FormulaDigest.Path

def segments (path : String) : List String :=
  (path.toList.splitOn '/').map String.ofList

/-- The last segment that counts, unless it leads upwards. -/
def fileName? (path : String) : Option String :=
  match ((segments path).filter fun s => s ≠ "" ∧ s ≠ ".").getLast? with
  | some name => if name = ".." then none else some name
  | none => none

/-- A name cut at its last dot, unless nothing stands before that dot. -/
def splitExtension (name : String) : String × Option String :=
  let back := name.toList.reverse
  match back.dropWhile (· ≠ '.') with
  | [] => (name, none)
  | _ :: front =>
    if front = [] then (name, none)
    else
      (String.ofList front.reverse,
        some (String.ofList (back.takeWhile (· ≠ '.')).reverse))

def stem? (path : String) : Option String :=
  (fileName? path).map fun name => (splitExtension name).1

def extension? (path : String) : Option String :=
  (fileName? path).bind fun name => (splitExtension name).2

/-- A path inside a directory, by a name that is no path from the root. -/
def join (directory name : String) : String :=
  if directory = "" then name
  else if directory.toList.getLast? = some '/' then directory ++ name
  else directory ++ "/" ++ name

end FormulaDigest.Path
