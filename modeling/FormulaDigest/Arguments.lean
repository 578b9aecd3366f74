import FormulaDigest.Path

/-!
# Command-line arguments

Files to document, in any order with the options. A value is stored when the next file or option
comes, so a bad value is noticed only then, after an unknown option behind it.
-/
namespace FormulaDigest

/-- The form of a report. -/
inductive Format
  | markdown
  | csv
  | json
  deriving DecidableEq, Repr

def Format.name : Format → String
  | .markdown => "markdown"
  | .csv => "csv"
  | .json => "json"

/-- The extension of a report file. -/
def Format.extension : Format → String
  | .markdown => "md"
  | .csv => "csv"
  | .json => "json"

def Format.ofName? (name : String) : Option Format :=
  [.markdown, .csv, .json].find? (·.name = name)

structure Arguments where
  files : List String
  config : Option String
  format : Format
  outputDir : Option String
  quiet : Bool
  deriving DecidableEq, Repr

/-- Why a command line is not run: it is refused, or asks for help or for the version. -/
inductive Usage
  | missingFile
  | invalidValue
  | repeated
  | unknown
  | unexpectedValue
  | help (long : Bool)
  | version
  deriving DecidableEq, Repr

namespace Arguments

/-- An option that takes a value, or the list of files. -/
inductive Slot
  | files
  | config
  | format
  | outputDir
  deriving DecidableEq, Repr

/-- What an option does. -/
inductive Effect
  | takeValue (slot : Slot)
  | quiet
  | help
  | version

def Effect.ofLetter? (c : Char) : Option Effect :=
  if c = 'c' then some (.takeValue .config)
  else if c = 'f' then some (.takeValue .format)
  else if c = 'o' then some (.takeValue .outputDir)
  else if c = 'q' then some .quiet
  else if c = 'h' then some .help
  else if c = 'V' then some .version
  else none

def Effect.ofWord? (word : String) : Option Effect :=
  if word = "config" then some (.takeValue .config)
  else if word = "format" then some (.takeValue .format)
  else if word = "output-dir" then some (.takeValue .outputDir)
  else if word = "quiet" then some .quiet
  else if word = "help" then some .help
  else if word = "version" then some .version
  else none

/-- Arguments under way, with the values that wait to be stored. -/
structure Draft where
  files : List String := []
  config : Option String := none
  format : Option Format := none
  outputDir : Option String := none
  quiet : Bool := false
  waiting : Option (Slot × List String) := none

namespace Draft

/-- Stores a value. An option takes one value and only once, and no path is empty. -/
def store (d : Draft) (slot : Slot) (values : List String) : Except Usage Draft :=
  match slot, values with
  | .files, values =>
    if "" ∈ values then .error .invalidValue else .ok { d with files := d.files ++ values }
  | _, [] => .error .invalidValue
  | .config, value :: _ =>
    if d.config.isSome then .error .repeated
    else if value = "" then .error .invalidValue
    else .ok { d with config := some value }
  | .outputDir, value :: _ =>
    if d.outputDir.isSome then .error .repeated
    else if value = "" then .error .invalidValue
    else .ok { d with outputDir := some value }
  | .format, value :: _ =>
    if d.format.isSome then .error .repeated
    else match Format.ofName? value with
      | some format => .ok { d with format := some format }
      | none => .error .invalidValue

/-- Stores the values that wait. -/
def settle (d : Draft) : Except Usage Draft :=
  match d.waiting with
  | some (slot, values) => store { d with waiting := none } slot values
  | none => .ok d

/-- Takes a file. Files in a row are stored together. -/
def addFile (d : Draft) (file : String) : Except Usage Draft :=
  match d.waiting with
  | some (.files, values) => .ok { d with waiting := some (.files, values ++ [file]) }
  | _ => do
    let d ← d.settle
    pure { d with waiting := some (.files, [file]) }

/-- Carries out an option that takes no value. -/
def apply (d : Draft) (long : Bool) : Effect → Except Usage Draft
  | .quiet => do
    let d ← d.settle
    if d.quiet then .error .repeated else .ok { d with quiet := true }
  | .help => do
    let _ ← d.settle
    .error (.help long)
  | .version => do
    let _ ← d.settle
    .error .version
  | .takeValue slot => do
    let d ← d.settle
    pure { d with waiting := some (slot, []) }

/-- A run of option letters. The first one that takes a value takes the rest of the run, without an
equals sign in front of it, if the run goes on. -/
def addLetters (d : Draft) : List Char → Except Usage Draft
  | [] => .ok d
  | c :: cs =>
    match Effect.ofLetter? c, cs with
    | none, _ => .error .unknown
    | some (.takeValue slot), [] => d.apply false (.takeValue slot)
    | some (.takeValue slot), '=' :: value => do
      (← d.settle).store slot [String.ofList value]
    | some (.takeValue slot), value => do
      (← d.settle).store slot [String.ofList value]
    | some effect, cs => do
      addLetters (← d.apply false effect) cs

/-- An option in words, whose value may follow an equals sign. -/
def addWord (d : Draft) (cs : List Char) : Except Usage Draft :=
  let word := String.ofList (cs.takeWhile (· ≠ '='))
  match Effect.ofWord? word, cs.dropWhile (· ≠ '=') with
  | none, _ => .error .unknown
  | some (.takeValue slot), _ :: value => do
    (← d.settle).store slot [String.ofList value]
  | some _, _ :: _ => .error .unexpectedValue
  | some effect, [] => d.apply true effect

/-- Whether an option waits for its value. -/
def wantsValue (d : Draft) : Option Slot :=
  match d.waiting with
  | some (.files, _) => none
  | some (slot, []) => some slot
  | _ => none

/-- Takes one argument in front of a lone double dash. A single dash is a value or a file. -/
def add (d : Draft) (argument : String) : Except Usage Draft :=
  match argument.toList with
  | '-' :: '-' :: cs => d.addWord cs
  | '-' :: c :: cs => d.addLetters (c :: cs)
  | _ =>
    match d.wantsValue with
    | some slot => .ok { d with waiting := some (slot, [argument]) }
    | none => d.addFile argument

/-- Takes all arguments. Behind a lone double dash all are files. -/
def addAll (d : Draft) : List String → Except Usage Draft
  | [] => .ok d
  | argument :: rest =>
    if argument = "--" then rest.foldlM addFile d
    else do addAll (← d.add argument) rest

/-- Stores what still waits and asks for at least one file. -/
def finish (d : Draft) : Except Usage Arguments := do
  let d ← d.settle
  if d.files = [] then .error .missingFile
  else .ok ⟨d.files, d.config, d.format.getD .markdown, d.outputDir, d.quiet⟩

end Draft

/-- Reads a command line, without the name of the program. -/
def parse (arguments : List String) : Except Usage Arguments := do
  (← Draft.addAll {} arguments).finish

end Arguments

end FormulaDigest
