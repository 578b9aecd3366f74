import FormulaDigest.ConfigText
import FormulaDigest.Console

/-!
# The program

A run from the command line to the exit code, as a function of the arguments and the file tree.
The configuration is loaded and checked and the output directory made before any file is looked at;
every file is processed before the first report is delivered.
-/
namespace FormulaDigest

/-- Why a file has no outcome. -/
inductive ProcessError
  | unread (file : String) (e : ReadError)
  | malformed (file : String) (e : Malformed)
  deriving DecidableEq, Repr

def ProcessError.message : ProcessError → String
  | .unread file e => "Failed to process file: " ++ file ++ ": " ++ e.message
  | .malformed file e => "Failed to process file: " ++ file ++ ": " ++ e.message

/-- Reads the workbook at a path and extracts its formulas. -/
def processFile (tree : FileTree) (config : Config) (file : String) :
    Except ProcessError Outcome :=
  match tree.readWorkbook file with
  | .error e => .error (.unread file e)
  | .ok book =>
    match book.report config with
    | .error e => .error (.malformed file e)
    | .ok outcome => .ok outcome

/-- Why a run ends before any file is processed. -/
inductive SetupError
  | unloadedConfig (path : String)
  | invalidConfig (e : ConfigError)
  | noOutputDirectory (path : String) (e : FileError)
  deriving DecidableEq, Repr

/-- A text with every line behind the first one indented like the first. -/
def indented (text : String) : String :=
  String.ofList ("    ".toList ++ text.toList.flatMap fun c =>
    if c = '\n' then "\n    ".toList else [c])

def SetupError.message : SetupError → String
  | .unloadedConfig path => "Error: Failed to load config from " ++ path ++ "\n"
  | .invalidConfig e =>
    "Error: Invalid configuration\n\nCaused by:\n" ++ indented e.message ++ "\n"
  | .noOutputDirectory path e =>
    "Error: Failed to create output directory " ++ path ++ "\n\nCaused by:\n" ++
      indented e.message ++ "\n"

/-- The configuration file that is used when none is named, if it exists. -/
def defaultConfigPath : String := "sheetdoc.toml"

def loadConfigFile (tree : FileTree) (path : String) : Except SetupError Config :=
  let bytes := match tree.read path with
    | .ok (.plain bytes) => some bytes
    | _ => none
  match Config.ofFile bytes with
  | .ok config => .ok config
  | .error _ => .error (.unloadedConfig path)

/-- The configuration of a run: the named file, the default file or the defaults. -/
def loadConfig (tree : FileTree) (args : Arguments) : Except SetupError Config :=
  match args.config with
  | some path => loadConfigFile tree path
  | none =>
    if tree.contains defaultConfigPath then loadConfigFile tree defaultConfigPath else .ok {}

/-- The configuration of a run, once it has passed the checks. -/
def checkedConfig (tree : FileTree) (args : Arguments) : Except SetupError Config := do
  let config ← loadConfig tree args
  config.validate.mapError .invalidConfig
  pure config

/-- Makes the output directory, if reports go to one. -/
def prepareOutput (tree : FileTree) (args : Arguments) : FileTree × Except SetupError Unit :=
  match args.outputDir with
  | none => (tree, .ok ())
  | some path =>
    let (tree, made) := tree.createDirectory path
    (tree, made.mapError (.noOutputDirectory path))

/-- All that comes before the first file. -/
def setUp (tree : FileTree) (args : Arguments) : FileTree × Except SetupError Config :=
  match checkedConfig tree args with
  | .error e => (tree, .error e)
  | .ok config =>
    let (tree, made) := prepareOutput tree args
    (tree, made.map fun _ => config)

/-- What a run leaves behind. -/
structure Exit where
  code : Nat
  out : String
  err : String
  tree : FileTree

/-- Processes and delivers the files of a command line. -/
def runFiles (args : Arguments) (config : Config) (tree : FileTree) : Exit :=
  let outcomes := args.files.map (processFile tree config)
  let (delivered, receipts) := emitReports args config outcomes tree
  { code := if receipts.any Receipt.hasFailed then 1 else 0
    out := delivered.out
    err := String.join (receipts.map (Receipt.message ProcessError.message args.quiet))
    tree := delivered.tree }

/-- Runs the program. A refused command line ends with code 2, a failure with code 1. -/
def run (arguments : List String) (tree : FileTree) : Exit :=
  match Arguments.parse arguments with
  | .error (.help long) => ⟨0, (Usage.help long).message, "", tree⟩
  | .error .version => ⟨0, Usage.version.message, "", tree⟩
  | .error usage => ⟨2, "", usage.message, tree⟩
  | .ok args =>
    match setUp tree args with
    | (tree, .error e) => ⟨1, "", e.message, tree⟩
    | (tree, .ok config) => runFiles args config tree

end FormulaDigest
