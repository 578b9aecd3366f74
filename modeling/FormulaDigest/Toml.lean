/-!
# TOML documents

The values of TOML, and the tables of a document while its lines are read. A table remembers how it
came about, because that decides whether a later line may add to it: a header opens each table
once, dotted keys add only to tables that dotted keys made, and a table written as a value is
closed.
-/
namespace FormulaDigest

/-- A value. Of a date or time only its presence is kept. -/
inductive Toml
  | string (s : String)
  | integer (n : Int)
  | float (x : Float)
  | boolean (b : Bool)
  | dateTime
  | array (items : List Toml)
  | table (entries : List (String × Toml))
  deriving Repr

namespace Toml

/-- A table under construction. It is implied as long as only longer paths named it, and dotted
when a dotted key made it. -/
structure Draft (Node : Type) where
  implied : Bool
  dotted : Bool
  entries : List (String × Node)

/-- What a name stands for: a value, a table, or an array of tables with the newest one first. -/
inductive Node
  | value (v : Toml)
  | table (t : Draft Node)
  | tables (newest : Draft Node) (earlier : List (Draft Node))

abbrev Table := Draft Node

namespace Table

/-- The table that a header opens, and that a document starts with. -/
def opened : Table := ⟨false, false, []⟩

def find? (t : Table) (key : String) : Option Node :=
  (t.entries.find? (·.1 = key)).map Prod.snd

/-- Puts a node under a name, in place of the one that stands there. -/
def set (t : Table) (key : String) (node : Node) : Table :=
  { t with
    entries :=
      if (t.find? key).isSome then
        t.entries.map fun entry => if entry.1 = key then (key, node) else entry
      else t.entries ++ [(key, node)] }

/-- Changes the table at the end of a path, making the tables that are missing. The path leads
through the newest table of an array. A dotted key passes implied tables only. -/
def modify (dotted : Bool) (f : Table → Option Table) : List String → Table → Option Table
  | [], t => f t
  | key :: path, t =>
    match t.find? key with
    | none => do
      let inner ← modify dotted f path ⟨true, dotted, []⟩
      pure (t.set key (.table inner))
    | some (.value _) => none
    | some (.table inner) => do
      guard (!dotted || inner.implied)
      let inner ← modify dotted f path inner
      pure (t.set key (.table inner))
    | some (.tables newest earlier) => do
      let newest ← modify dotted f path newest
      pure (t.set key (.tables newest earlier))

/-- Adds a value under a dotted key. The key is new, and the table that takes it was made by dotted
keys exactly when the key has more than one part. -/
def add (path : List String) (key : String) (v : Toml) : Table → Option Table :=
  modify true (fun t => do
    guard (t.dotted = !path.isEmpty)
    guard (t.find? key).isNone
    pure (t.set key (.value v))) path

/-- Opens the table of a header. A table that was only implied so far becomes explicit. -/
def openTable (path : List String) (key : String) : Table → Option Table :=
  modify false (fun t =>
    match t.find? key with
    | none => some (t.set key (.table opened))
    | some (.table inner) =>
      if inner.implied && !inner.dotted then
        some (t.set key (.table { inner with implied := false }))
      else none
    | some _ => none) path

/-- Appends a table to the array of a header, which is made if it is missing. -/
def openElement (path : List String) (key : String) : Table → Option Table :=
  modify false (fun t =>
    match t.find? key with
    | none => some (t.set key (.tables opened []))
    | some (.tables newest earlier) => some (t.set key (.tables opened (newest :: earlier)))
    | some _ => none) path

mutual

/-- The value that a finished node stands for. -/
def nodeValue : Node → Toml
  | .value v => v
  | .table t => .table (draftEntries t)
  | .tables newest earlier =>
    .array (draftValues earlier [.table (draftEntries newest)])

def draftEntries : Table → List (String × Toml)
  | ⟨_, _, entries⟩ => entryValues entries

def entryValues : List (String × Node) → List (String × Toml)
  | [] => []
  | (key, node) :: rest => (key, nodeValue node) :: entryValues rest

/-- The tables of an array in the order of the document, in front of those already listed. -/
def draftValues : List Table → List Toml → List Toml
  | [], listed => listed
  | t :: earlier, listed => draftValues earlier (.table (draftEntries t) :: listed)

end

end Table

/-- The value under a name of a table. -/
def entry? (entries : List (String × Toml)) (key : String) : Option Toml :=
  (entries.find? (·.1 = key)).map Prod.snd

end Toml

end FormulaDigest
