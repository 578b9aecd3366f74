import FormulaDigest.Arguments
import FormulaDigest.FileTree
import FormulaDigest.RecordJson

/-!
# Delivery of reports

Each file's outcome is delivered in the order of the command line: a report goes to a file of its
own in the output directory or, without one, to standard output. An empty outcome writes nothing,
and what fails for one file does not touch the others.
-/
namespace FormulaDigest

/-- Why nothing was delivered for a file: the outcome itself, or its rendering or writing. -/
inductive Failure (ε : Type)
  | outcome (e : ε)
  | render (e : ConfigError)
  | write (path : String) (e : FileError)

/-- The text of a failure, outer context first. -/
def Failure.message {ε : Type} (describe : ε → String) : Failure ε → String
  | .outcome e => describe e
  | .render e => "Failed to render CSV report: " ++ e.message
  | .write path e => "Failed to write " ++ path ++ ": " ++ e.message

/-- The report of a file in a given form. -/
def Report.render (r : Report) (format : Format) (config : Config) (file : String) :
    Except ConfigError String :=
  match format with
  | .markdown => .ok (r.markdown config)
  | .csv => r.csv config
  | .json => .ok (r.json file)

/-- The file in the output directory that a report goes to. It has the stem of the input. -/
def outputPath (directory input : String) (format : Format) : String :=
  Path.join directory ((Path.stem? input).getD "report" ++ "." ++ format.extension)

/-- What deliveries change: standard output and the file tree. -/
structure Delivered where
  out : String
  tree : FileTree

namespace Delivered

/-- Puts a rendered report in its place. -/
def place {ε : Type} (d : Delivered) (args : Arguments) (file rendered : String) :
    Except (Failure ε) Delivered :=
  match args.outputDir with
  | none => .ok { d with out := d.out ++ rendered }
  | some directory =>
    let target := outputPath directory file args.format
    match d.tree.write target (.plain rendered.toUTF8) with
    | .ok tree => .ok { d with tree }
    | .error e => .error (.write target e)

/-- Delivers the outcome of one file, and gives it back. -/
def deliver {ε : Type} (d : Delivered) (args : Arguments) (config : Config) (file : String) :
    Except ε Outcome → Except (Failure ε) (Delivered × Outcome)
  | .error e => .error (.outcome e)
  | .ok .empty => .ok (d, .empty)
  | .ok (.report r) =>
    match r.render args.format config file with
    | .error e => .error (.render e)
    | .ok rendered => (d.place args file rendered).map fun d => (d, .report r)

end Delivered

/-- What became of one file: its outcome once delivered, or the failure. -/
structure Receipt (ε : Type) where
  file : String
  result : Except (Failure ε) Outcome

def Receipt.hasFailed {ε : Type} (r : Receipt ε) : Bool :=
  match r.result with
  | .ok _ => false
  | .error _ => true

/-- Delivers outcome after outcome. A failure leaves everything as it is. -/
def deliverAll {ε : Type} (args : Arguments) (config : Config) (d : Delivered) :
    List (String × Except ε Outcome) → Delivered × List (Receipt ε)
  | [] => (d, [])
  | (file, outcome) :: rest =>
    match d.deliver args config file outcome with
    | .ok (d, o) =>
      let (final, receipts) := deliverAll args config d rest
      (final, ⟨file, .ok o⟩ :: receipts)
    | .error e =>
      let (final, receipts) := deliverAll args config d rest
      (final, ⟨file, .error e⟩ :: receipts)

/-- Pairs the files of a command line with outcomes, up to the shorter list, and delivers them. -/
def emitReports {ε : Type} (args : Arguments) (config : Config) (outcomes : List (Except ε Outcome))
    (tree : FileTree) : Delivered × List (Receipt ε) :=
  deliverAll args config ⟨"", tree⟩ (args.files.zip outcomes)

end FormulaDigest
