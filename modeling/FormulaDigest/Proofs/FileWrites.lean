import Mathlib
import FormulaDigest.FileTree

/-!
# Writes to a file tree

A write puts a file where there was none or replaces one, and never takes a directory away. So each
path that led somewhere still leads there, the new file is read back, and the other files stay.
-/
namespace FormulaDigest.FileTree

section
variable {t : FileTree} {loc other : Location} {node : Node}

theorem node?_set_of_ne (h : loc ≠ other) : (t.set loc node).node? other = t.node? other := by
  simp [node?, set, Std.ExtTreeMap.getElem?_insert, h]

/-- The working directory and those above it cannot be replaced. -/
theorem node?_set_self (h : t.node? loc ≠ some .directory) :
    (t.set loc node).node? loc = some node := by
  have below : loc.isPrefixOf t.home = false := by
    rw [← Bool.not_eq_true]
    intro hp
    exact h (if_pos hp)
  simp [node?, set, below]

end

/-- A tree with the directories of another one, and perhaps more. -/
structure Extends (t' t : FileTree) : Prop where
  home : t'.home = t.home
  directories : ∀ loc, t.node? loc = some .directory → t'.node? loc = some .directory

namespace Extends
variable {t t' : FileTree} {loc target : Location} (h : t'.Extends t)
include h

theorem enter {segment : String} (he : t.enter loc segment = .ok target) :
    t'.enter loc segment = .ok target := by
  unfold FileTree.enter at he ⊢
  split_ifs at he ⊢
  · exact he
  · exact he
  · split at he
    case h_1 hd => rw [h.directories _ hd]; exact he
    case h_2 => cases he
    case h_3 => cases he

theorem follow {segments : List String} (hf : t.follow loc segments = .ok target) :
    t'.follow loc segments = .ok target := by
  induction segments generalizing loc with
  | nil => exact hf
  | cons segment segments ih =>
    cases segments with
    | nil =>
      rw [FileTree.follow] at hf ⊢
      split_ifs at hf ⊢
      · exact h.enter hf
      · exact hf
    | cons next segments =>
      rw [FileTree.follow] at hf ⊢
      cases he : t.enter loc segment with
      | error e => rw [he] at hf; cases hf
      | ok entered =>
        rw [he] at hf
        rw [h.enter he]
        exact ih hf

theorem locate {path : String} (hl : t.locate path = .ok target) :
    t'.locate path = .ok target := by
  unfold FileTree.locate start at hl ⊢
  rw [h.home]
  split at hl
  · cases hl
  · split_ifs at hl ⊢
    · exact h.follow hl
    · exact h.follow hl

end Extends

section
variable {t t' : FileTree} {path other : String} {content old : Content}

theorem read_eq_ok : t.read path = .ok content ↔
    ∃ loc, t.locate path = .ok loc ∧ t.node? loc = some (.file content) := by
  unfold read
  cases hl : t.locate path with
  | error e => simp [bind, Except.bind]
  | ok loc =>
    simp only [bind, Except.bind, Except.ok.injEq, exists_eq_left']
    split <;> simp_all

/-- A write succeeds where its path leads, unless to a directory. -/
theorem write_eq_ok : t.write path content = .ok t' ↔
    ∃ loc, t.locate path = .ok loc ∧ t.node? loc ≠ some .directory ∧
      t' = t.set loc (.file content) := by
  unfold write
  cases hl : t.locate path with
  | error e => simp [bind, Except.bind]
  | ok loc =>
    simp only [bind, Except.bind, Except.ok.injEq, exists_eq_left']
    split <;> simp_all [eq_comm]

theorem extends_of_write (h : t.write path content = .ok t') : t'.Extends t := by
  obtain ⟨loc, -, hd, rfl⟩ := write_eq_ok.mp h
  refine ⟨rfl, fun other ho => ?_⟩
  rw [node?_set_of_ne, ho]
  rintro rfl
  exact hd ho

theorem read_of_write (h : t.write path content = .ok t') : t'.read path = .ok content := by
  obtain ⟨loc, hl, hd, rfl⟩ := write_eq_ok.mp h
  exact read_eq_ok.mpr ⟨loc, (extends_of_write h).locate hl, node?_set_self hd⟩

/-- A file elsewhere stays what it was. -/
theorem read_of_write_of_ne (h : t.write path content = .ok t')
    (hne : t.locate path ≠ t.locate other) (hr : t.read other = .ok old) :
    t'.read other = .ok old := by
  obtain ⟨loc, hl, -, rfl⟩ := write_eq_ok.mp h
  obtain ⟨place, hp, hn⟩ := read_eq_ok.mp hr
  have apart : loc ≠ place := by
    rintro rfl
    exact hne (hl.trans hp.symm)
  refine read_eq_ok.mpr ⟨place, (extends_of_write h).locate hp, ?_⟩
  rw [node?_set_of_ne apart, hn]

end

end FormulaDigest.FileTree
