import FormulaDigest.Proofs.Deliveries

/-!
# What a run of deliveries changes

The turn of a file fails and then does nothing, or it is for an empty outcome and does nothing, or
it prints the report, or it writes the report to the output directory. So a run prints the reports
in order or it writes files, it touches no other place of the tree, and a turn that fails is as
good as none for the other files.
-/
namespace FormulaDigest

namespace FileTree
variable {t t' : FileTree} {path : String} {content : Content} {loc : Location}

/-- A write makes no directory. -/
theorem extends_write (h : t.write path content = .ok t') : t.Extends t' := by
  obtain ⟨place, -, hd, rfl⟩ := write_eq_ok.mp h
  refine ⟨rfl, fun other ho => ?_⟩
  by_cases same : place = other
  · rw [← same, node?_set_self hd] at ho
    cases ho
  · rwa [node?_set_of_ne same] at ho

/-- Paths lead after a write where they led before. -/
theorem locate_of_write (h : t.write path content = .ok t') {other : String} :
    t'.locate other = .ok loc ↔ t.locate other = .ok loc :=
  ⟨(extends_write h).locate, (extends_of_write h).locate⟩

theorem locate_of_node?_ne (h : t.write path content = .ok t')
    (changed : t'.node? loc ≠ t.node? loc) : t.locate path = .ok loc := by
  obtain ⟨place, hl, -, rfl⟩ := write_eq_ok.mp h
  by_cases same : place = loc
  · rw [hl, same]
  · exact absurd (node?_set_of_ne same) changed

end FileTree

section
variable {ε : Type} (args : Arguments) (config : Config)

/-- Why a file fails whose turn begins with a given file tree. -/
inductive Fails (t : FileTree) (file : String) : Except ε Outcome → Prop
  | outcome (e : ε) : Fails t file (.error e)
  | render {r : Report} {e : ConfigError} (refused : r.render args.format config file = .error e) :
      Fails t file (.ok (.report r))
  | write {r : Report} {text directory : String} {e : FileError}
      (rendered : r.render args.format config file = .ok text)
      (hdir : args.outputDir = some directory)
      (refused : t.write (outputPath directory file args.format) (.plain text.toUTF8) = .error e) :
      Fails t file (.ok (.report r))

/-- What a turn does to the state, and whether it fails. -/
inductive TurnSpec (d : Delivered) (file : String) : Except ε Outcome → Delivered → Bool → Prop
  | failed {outcome : Except ε Outcome} (h : Fails args config d.tree file outcome) :
      TurnSpec d file outcome d true
  | empty : TurnSpec d file (.ok .empty) d false
  | printed {r : Report} {text : String} (hdir : args.outputDir = none)
      (rendered : r.render args.format config file = .ok text) :
      TurnSpec d file (.ok (.report r)) { d with out := d.out ++ text } false
  | written {r : Report} {text directory : String} {tree : FileTree}
      (hdir : args.outputDir = some directory)
      (rendered : r.render args.format config file = .ok text)
      (accepted : d.tree.write (outputPath directory file args.format) (.plain text.toUTF8) =
        .ok tree) :
      TurnSpec d file (.ok (.report r)) { d with tree } false

/-- The text of a file's report, if there is one and it can be rendered. -/
def rendering? (entry : String × Except ε Outcome) : Option String :=
  match entry.2 with
  | .ok (.report r) => (r.render args.format config entry.1).toOption
  | _ => none

end

namespace Delivered
variable {ε : Type} {args : Arguments} {config : Config}

theorem turn_spec (args : Arguments) (config : Config) (d : Delivered)
    (entry : String × Except ε Outcome) :
    TurnSpec args config d entry.1 entry.2 (d.turn args config entry)
      (d.receipt args config entry).hasFailed := by
  obtain ⟨file, outcome⟩ := entry
  match outcome with
  | .error e => exact .failed (.outcome e)
  | .ok .empty => exact .empty
  | .ok (.report r) =>
    unfold turn receipt
    simp only [deliver]
    cases rendered : r.render args.format config file with
    | error e => exact .failed (.render rendered)
    | ok text =>
      simp only [place]
      cases hdir : args.outputDir with
      | none => exact .printed hdir rendered
      | some directory =>
        dsimp only
        cases hw : d.tree.write (outputPath directory file args.format) (.plain text.toUTF8) with
        | error e => exact .failed (.write rendered hdir hw)
        | ok tree => exact .written hdir rendered hw

variable {d : Delivered} {entry : String × Except ε Outcome}
  {entries before after : List (String × Except ε Outcome)}

/-- Without an output directory a turn appends its text to the output. -/
theorem turn_of_print (hdir : args.outputDir = none) (config : Config) (d : Delivered)
    (entry : String × Except ε Outcome) :
    (d.turn args config entry).out = d.out ++ (rendering? args config entry).getD "" ∧
      (d.turn args config entry).tree = d.tree := by
  have spec := turn_spec args config d entry
  generalize d.turn args config entry = final at spec ⊢
  generalize (d.receipt args config entry).hasFailed = flag at spec
  obtain ⟨file, outcome⟩ := entry
  dsimp only at spec
  cases spec with
  | failed h =>
    cases h with
    | outcome e => simp [rendering?]
    | render refused => simp [rendering?, refused, Except.toOption]
    | write _ hdir' _ => rw [hdir] at hdir'; cases hdir'
  | empty => simp [rendering?]
  | printed _ rendered => simp [rendering?, rendered, Except.toOption]
  | written hdir' _ _ => rw [hdir] at hdir'; cases hdir'

theorem turns_of_print (hdir : args.outputDir = none) (config : Config) (d : Delivered)
    (entries : List (String × Except ε Outcome)) :
    (entries.foldl (turn args config) d).out =
        d.out ++ String.join (entries.filterMap (rendering? args config)) ∧
      (entries.foldl (turn args config) d).tree = d.tree := by
  induction entries generalizing d with
  | nil => simp
  | cons entry entries ih =>
    obtain ⟨out, tree⟩ := turn_of_print hdir config d entry
    obtain ⟨out', tree'⟩ := ih (d.turn args config entry)
    rw [List.foldl_cons]
    refine ⟨?_, tree'.trans tree⟩
    rw [out', out]
    cases h : rendering? args config entry with
    | none => simp [h]
    | some text => simp [h, String.append_assoc]

variable {directory : String} {loc : Location}

/-- With an output directory a turn prints nothing, and a place that changes is the one that the
output path of its file leads to. -/
theorem turn_of_write (hdir : args.outputDir = some directory) (config : Config) (d : Delivered)
    (entry : String × Except ε Outcome) :
    (d.turn args config entry).out = d.out ∧
      (∀ path loc, (d.turn args config entry).tree.locate path = .ok loc ↔
        d.tree.locate path = .ok loc) ∧
      ∀ loc, (d.turn args config entry).tree.node? loc ≠ d.tree.node? loc →
        ∃ r text tree, entry.2 = .ok (.report r) ∧
          r.render args.format config entry.1 = .ok text ∧
          d.tree.write (outputPath directory entry.1 args.format) (.plain text.toUTF8) =
            .ok tree ∧
          d.tree.locate (outputPath directory entry.1 args.format) = .ok loc := by
  rcases turn_cases config d hdir entry with
    same | ⟨r, text, tree, outcome, rendered, accepted, written⟩
  · rw [same]
    exact ⟨rfl, fun _ _ => Iff.rfl, fun _ changed => absurd rfl changed⟩
  · rw [written]
    refine ⟨rfl, fun _ _ => FileTree.locate_of_write accepted, fun loc changed => ?_⟩
    exact ⟨r, text, tree, outcome, rendered, accepted, FileTree.locate_of_node?_ne accepted changed⟩

theorem turns_of_write (hdir : args.outputDir = some directory) (config : Config) (d : Delivered)
    (entries : List (String × Except ε Outcome)) :
    (entries.foldl (turn args config) d).out = d.out ∧
      ∀ path loc, (entries.foldl (turn args config) d).tree.locate path = .ok loc ↔
        d.tree.locate path = .ok loc := by
  induction entries generalizing d with
  | nil => exact ⟨rfl, fun _ _ => Iff.rfl⟩
  | cons entry entries ih =>
    obtain ⟨out, locate, -⟩ := turn_of_write hdir config d entry
    obtain ⟨out', locate'⟩ := ih (d.turn args config entry)
    exact ⟨out'.trans out, fun path loc => (locate' path loc).trans (locate path loc)⟩

/-- A place that changes in a run changes in the turn of a file whose output path leads there. -/
theorem exists_turn_of_node?_ne (hdir : args.outputDir = some directory)
    (changed : (entries.foldl (turn args config) d).tree.node? loc ≠ d.tree.node? loc) :
    ∃ before file r after text tree, entries = before ++ (file, .ok (.report r)) :: after ∧
      r.render args.format config file = .ok text ∧
      (before.foldl (turn args config) d).tree.write (outputPath directory file args.format)
        (.plain text.toUTF8) = .ok tree ∧
      d.tree.locate (outputPath directory file args.format) = .ok loc := by
  induction entries generalizing d with
  | nil => exact absurd rfl changed
  | cons entry entries ih =>
    obtain ⟨-, locate, own⟩ := turn_of_write hdir config d entry
    by_cases here : (d.turn args config entry).tree.node? loc = d.tree.node? loc
    · -- It changes later, in a tree in which paths lead where they do now.
      rw [← here] at changed
      obtain ⟨before, file, r, after, text, tree, rfl, rendered, accepted, place⟩ := ih changed
      exact ⟨entry :: before, file, r, after, text, tree, rfl, rendered, accepted,
        (locate _ _).mp place⟩
    · obtain ⟨r, text, tree, outcome, rendered, accepted, place⟩ := own loc here
      obtain ⟨file, _⟩ := entry
      dsimp only at outcome
      subst outcome
      exact ⟨[], file, r, entries, text, tree, rfl, rendered, accepted, place⟩

end Delivered

section
variable {ε : Type} (args : Arguments) (config : Config) (d : Delivered)

end

def blocked : FileTree := shelf.set ["work", "out", "first.csv"] .directory

end FormulaDigest
