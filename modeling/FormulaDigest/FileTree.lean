import FormulaDigest.WorkbookFile

/-!
# File trees

The directories and files that a run sees, and what a Unix system does with them: it follows a path
through directories from the working directory or the root, reads and replaces files, and makes
directories. The working directory and those above it always exist.
-/
namespace FormulaDigest

/-- What a file holds: bytes of no further meaning, or a workbook. -/
inductive Content
  | plain (bytes : ByteArray)
  | workbook (book : WorkbookFile)

inductive Node
  | directory
  | file (content : Content)

/-- The names from the root down to a node. -/
abbrev Location := List String

structure FileTree where
  /-- Where the working directory is. -/
  home : Location
  nodes : Std.ExtTreeMap Location Node

inductive FileError
  | missing
  | notDirectory
  | isDirectory
  | present
  | tooLong
  | zeroCharacter
  deriving DecidableEq, Repr

def FileError.message : FileError → String
  | .missing => "No such file or directory (os error 2)"
  | .notDirectory => "Not a directory (os error 20)"
  | .isDirectory => "Is a directory (os error 21)"
  | .present => "File exists (os error 17)"
  | .tooLong => "File name too long (os error 36)"
  | .zeroCharacter => "file name contained an unexpected NUL byte"

namespace FileTree

/-- A working directory without anything in it, on a system with a device that is always empty. -/
def empty (home : Location) : FileTree :=
  let nodes : Std.ExtTreeMap Location Node := ∅
  ⟨home, (nodes.insert ["dev"] .directory).insert ["dev", "null"] (.file (.plain .empty))⟩

def node? (t : FileTree) (loc : Location) : Option Node :=
  if loc.isPrefixOf t.home then some .directory else t.nodes[loc]?

def set (t : FileTree) (loc : Location) (node : Node) : FileTree :=
  { t with nodes := t.nodes.insert loc node }

/-- The most bytes that a name can have. -/
def nameLimit : Nat := 255

/-- The least number of bytes that a path cannot have. -/
def pathLimit : Nat := 4096

/-- One step from a directory to a directory. -/
def enter (t : FileTree) (loc : Location) (segment : String) : Except FileError Location :=
  if segment = "" ∨ segment = "." then .ok loc
  else if segment = ".." then .ok loc.dropLast
  else if nameLimit < segment.utf8ByteSize then .error .tooLong
  else match t.node? (loc ++ [segment]) with
    | some .directory => .ok (loc ++ [segment])
    | some (.file _) => .error .notDirectory
    | none => .error .missing

/-- The location that the segments of a path name, whether or not there is a node. All segments but
the last lead through directories, and so does a last one that is no name. -/
def follow (t : FileTree) : Location → List String → Except FileError Location
  | loc, [] => .ok loc
  | loc, [segment] =>
    if segment = "" ∨ segment = "." ∨ segment = ".." then t.enter loc segment
    else if nameLimit < segment.utf8ByteSize then .error .tooLong
    else .ok (loc ++ [segment])
  | loc, segment :: next :: segments => do
    t.follow (← t.enter loc segment) (next :: segments)

/-- What keeps a path from being followed at all. -/
def pathError? (path : String) : Option FileError :=
  if '\x00' ∈ path.toList then some .zeroCharacter
  else if pathLimit ≤ path.utf8ByteSize then some .tooLong
  else none

/-- Where a path starts: at the root behind a slash, else in the working directory. -/
def start (t : FileTree) (path : String) : Location :=
  if path.toList.head? = some '/' then [] else t.home

def locate (t : FileTree) (path : String) : Except FileError Location :=
  match pathError? path with
  | some e => .error e
  | none => if path = "" then .error .missing else t.follow (t.start path) (Path.segments path)

/-- Whether a path leads to a file or a directory. -/
def contains (t : FileTree) (path : String) : Bool :=
  match t.locate path with
  | .ok loc => (t.node? loc).isSome
  | .error _ => false

def read (t : FileTree) (path : String) : Except FileError Content := do
  match t.node? (← t.locate path) with
  | some (.file content) => .ok content
  | some .directory => .error .isDirectory
  | none => .error .missing

/-- Replaces the file at a path, or makes it in a directory that exists. -/
def write (t : FileTree) (path : String) (content : Content) : Except FileError FileTree := do
  let loc ← t.locate path
  match t.node? loc with
  | some .directory => .error .isDirectory
  | _ => .ok (t.set loc (.file content))

/-- Makes one directory inside another. Slashes at the end of its path count for nothing here. -/
def makeDirectory (t : FileTree) (start : Location) (segments : List String) :
    Except FileError (FileTree × Location) := do
  let loc ← t.follow start (segments.reverse.dropWhile (· = "")).reverse
  match t.node? loc with
  | some _ => .error .present
  | none => .ok (t.set loc .directory, loc)

/-- Where a path leads, if that is a directory. -/
def directoryAt? (t : FileTree) (start : Location) (segments : List String) : Option Location :=
  match t.follow start segments with
  | .ok loc => match t.node? loc with
    | some .directory => some loc
    | _ => none
  | .error _ => none

/-- Makes one directory, unless it is there already. -/
def ensureDirectory (t : FileTree) (start : Location) (segments : List String) :
    Except FileError (FileTree × Location) :=
  match t.makeDirectory start segments with
  | .ok made => .ok made
  | .error e =>
    match t.directoryAt? start segments with
    | some loc => .ok (t, loc)
    | none => .error e

/-- The path without its last segment that counts, segments in reverse. -/
def parent (reversed : List String) : List String :=
  let idle (s : String) : Bool := s = "" || s = "."
  (reversed.dropWhile idle).tail.dropWhile idle

/-- Makes a directory and those above it that are missing, given the segments of its path in
reverse. What was made stays even if a later one cannot be. The first number bounds that of the
segments. -/
def makeDirectories (start : Location) :
    Nat → List String → FileTree → FileTree × Except FileError Location
  | 0, _, t => (t, .ok start)
  | fuel + 1, reversed, t =>
    if reversed = [] then (t, .ok start)
    else match t.ensureDirectory start reversed.reverse with
      | .ok (t, loc) => (t, .ok loc)
      | .error .missing =>
        let above := parent reversed
        match makeDirectories start fuel above t with
        | (t, .error e) => (t, .error e)
        | (t, .ok loc) =>
          match t.ensureDirectory loc (reversed.take (reversed.length - above.length)).reverse with
          | .ok (t, loc) => (t, .ok loc)
          | .error e => (t, .error e)
      | .error e => (t, .error e)

/-- Makes the directory at a path with all that is missing above it. -/
def createDirectory (t : FileTree) (path : String) : FileTree × Except FileError Unit :=
  match pathError? path with
  | some e => (t, .error e)
  | none =>
    let reversed := (Path.segments path).reverse
    let (t, made) := makeDirectories (t.start path) (reversed.length + 1) reversed t
    (t, made.map fun _ => ())

/-- Puts a file at a path and makes the directories above it. Where that is impossible the tree
stays as it is. -/
def place (t : FileTree) (path : String) (content : Content) : FileTree :=
  let above := String.ofList (path.toList.reverse.dropWhile (· ≠ '/')).reverse
  ((t.createDirectory above).1.write path content).toOption.getD t

/-- Whether a node is the same directory or file as before. Workbooks are never written. -/
def isUnchanged : Option Node → Node → Bool
  | some .directory, .directory => true
  | some (.file (.plain before)), .file (.plain bytes) => before == bytes
  | some (.file (.workbook _)), .file (.workbook _) => true
  | _, _ => false

/-- The nodes that are new or not what they were, with their paths from the root, directories before
what is in them. -/
def changes (before after : FileTree) : List (String × Node) :=
  (after.nodes.toList.filter fun entry => !isUnchanged before.nodes[entry.1]? entry.2).map
    fun entry => ("/" ++ "/".intercalate entry.1, entry.2)

/-- The nodes below the working directory, with their paths from there. -/
def listing (t : FileTree) : List (String × Node) :=
  (t.nodes.toList.filter fun entry => t.home.isPrefixOf entry.1).map fun entry =>
    ("/".intercalate (entry.1.drop t.home.length), entry.2)

end FileTree

/-- The workbook in the file at a path. -/
def FileTree.readWorkbook (t : FileTree) (path : String) : Except ReadError Workbook :=
  match t.read path with
  | .ok (.workbook book) => book.read path
  | _ => .error (.unopened path)

end FormulaDigest
