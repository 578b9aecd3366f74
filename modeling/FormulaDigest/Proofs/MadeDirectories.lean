import FormulaDigest.Proofs.FileWrites

/-!
# Directories that are made

Directories are made only where there was nothing, one by one on the way to the last. So whatever a
tree held it holds afterwards, also where the way ends early.
-/
namespace FormulaDigest.FileTree

/-- A tree with all nodes of another one in their places, and perhaps more. -/
structure Keeps (t' t : FileTree) : Prop where
  home : t'.home = t.home
  nodes : ∀ loc node, t.node? loc = some node → t'.node? loc = some node

namespace Keeps
variable {t t' t'' : FileTree} {path : String} {content : Content}

theorem refl (t : FileTree) : t.Keeps t := ⟨rfl, fun _ _ h => h⟩

theorem trans (h' : t''.Keeps t') (h : t'.Keeps t) : t''.Keeps t :=
  ⟨h'.home.trans h.home, fun loc node hn => h'.nodes loc node (h.nodes loc node hn)⟩

theorem toExtends (h : t'.Keeps t) : t'.Extends t :=
  ⟨h.home, fun loc hd => h.nodes loc .directory hd⟩

theorem read (h : t'.Keeps t) (hr : t.read path = .ok content) : t'.read path = .ok content := by
  obtain ⟨loc, hl, hn⟩ := read_eq_ok.mp hr
  exact read_eq_ok.mpr ⟨loc, h.toExtends.locate hl, h.nodes loc _ hn⟩

end Keeps

variable {t t' : FileTree} {start loc : Location} {segments : List String}

theorem keeps_set (vacant : t.node? loc = none) (node : Node) : (t.set loc node).Keeps t := by
  refine ⟨rfl, fun other held hn => ?_⟩
  rw [node?_set_of_ne, hn]
  rintro rfl
  rw [vacant] at hn
  cases hn

theorem keeps_of_makeDirectory (h : t.makeDirectory start segments = .ok (t', loc)) :
    t'.Keeps t := by
  unfold makeDirectory at h
  cases hl : t.follow start (segments.reverse.dropWhile (· = "")).reverse with
  | error e => rw [hl] at h; cases h
  | ok place =>
    rw [hl] at h
    simp only [bind, Except.bind] at h
    split at h
    case h_1 => cases h
    case h_2 vacant =>
      cases h
      exact keeps_set vacant .directory

theorem keeps_of_ensureDirectory (h : t.ensureDirectory start segments = .ok (t', loc)) :
    t'.Keeps t := by
  unfold ensureDirectory at h
  split at h
  case h_1 made hm =>
    obtain rfl := Except.ok.inj h
    exact keeps_of_makeDirectory hm
  case h_2 e he =>
    split at h
    case h_1 present hp =>
      cases h
      exact .refl t
    case h_2 => cases h

/-- On the way to a directory nothing is lost, wherever the way ends. -/
theorem keeps_makeDirectories (start : Location) (fuel : Nat) (reversed : List String)
    (t : FileTree) : (makeDirectories start fuel reversed t).1.Keeps t := by
  fun_induction makeDirectories start fuel reversed t with
  | case1 => exact .refl _
  | case2 => exact .refl _
  | case3 fuel reversed t _ made loc here => exact keeps_of_ensureDirectory here
  | case4 fuel reversed t _ _ above made e failed ih => rwa [failed] at ih
  | case5 fuel reversed t _ _ above made loc reached final last below ih =>
    rw [reached] at ih
    exact (keeps_of_ensureDirectory below).trans ih
  | case6 fuel reversed t _ _ above made loc reached e blocked ih => rwa [reached] at ih
  | case7 => exact .refl _

theorem keeps_createDirectory (t : FileTree) (path : String) :
    (t.createDirectory path).1.Keeps t := by
  unfold createDirectory
  split
  · exact .refl t
  · exact keeps_makeDirectories _ _ _ t

end FormulaDigest.FileTree
