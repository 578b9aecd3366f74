import FormulaDigest.Path
import FormulaDigest.Proofs.Runs

/-!
# The grammar of paths

Which name a path ends in and which stem that name has, read off the text of the path alone. A name
joined to a directory is the one component more, whatever shape the directory has.
-/
namespace FormulaDigest.Path

/-- One segment that names an entry of a directory. -/
structure IsName (name : String) : Prop where
  oneSegment : '/' ∉ name.toList
  nonempty : name ≠ ""
  notHere : name ≠ "."
  notUp : name ≠ ".."

/-- The segments of a path that count, from the root or from the working directory. -/
def components (path : String) : List String := (segments path).filter fun s => s ≠ "" ∧ s ≠ "."

/-- A path that names an entry: it ends with the name, perhaps followed by slashes and single dots
that lead nowhere. -/
structure EndsIn (path name : String) : Prop where
  isName : IsName name
  around : ∃ (front : List Char) (behind : List (List Char)),
    front ++ (name.toList ++ behind.flatMap ('/' :: ·)) = path.toList ∧
    (∀ c ∈ front.getLast?, c = '/') ∧ ∀ segment ∈ behind, segment = [] ∨ segment = ['.']

/-- A name without its last extension. A dot at the start begins none. -/
inductive Cut : String → String → Prop
  | extension {stem extension : String} (front : stem ≠ "") (last : '.' ∉ extension.toList) :
    Cut (stem ++ "." ++ extension) stem
  | whole {name : String} (plain : '.' ∉ name.toList.tail) : Cut name name

variable {path name stem extension : String} {above behind : List String}

theorem notMem_of_mem_splitOn {separator : Char} {cs part : List Char}
    (h : part ∈ cs.splitOn separator) : separator ∉ part := by
  induction cs generalizing part with
  | nil => simp_all
  | cons c cs ih =>
    rw [List.splitOn_cons_eq_if_modifyHead] at h
    split at h
    case isTrue =>
      rcases List.mem_cons.mp h with rfl | h
      · simp
      · exact ih h
    case isFalse hc =>
      obtain ⟨first, others, hs⟩ := List.exists_cons_of_ne_nil (List.splitOn_ne_nil separator cs)
      rw [hs] at h ih
      rcases List.mem_cons.mp h with rfl | h
      · intro hm
        rcases List.mem_cons.mp hm with rfl | hm
        · exact hc (BEq.refl _)
        · exact ih List.mem_cons_self hm
      · exact ih (List.mem_cons_of_mem _ h)

theorem notMem_of_mem_segments {path segment : String} (h : segment ∈ segments path) :
    '/' ∉ segment.toList := by
  obtain ⟨part, hp, rfl⟩ := List.mem_map.mp h
  rw [String.toList_ofList]
  exact notMem_of_mem_splitOn hp

/-- Joining adds one segment to those of the directory, in the place of an empty last one. -/
theorem segments_join (directory : String) : ∃ above,
    (∀ name, '/' ∉ name.toList → segments (join directory name) = above ++ [name]) ∧
      (segments directory = above ∨ segments directory = above ++ [""]) := by
  have single : ∀ name : String, '/' ∉ name.toList → segments name = [name] := by
    intro name hn
    simp [segments, List.splitOn_eq_singleton hn]
  by_cases empty : directory = ""
  · refine ⟨[], fun name hn => by simp [join, empty, single name hn], .inr ?_⟩
    rw [empty]
    exact single "" (by decide)
  by_cases slash : directory.toList.getLast? = some '/'
  · obtain ⟨front, hf⟩ := List.getLast?_eq_some_iff.mp slash
    refine ⟨(front.splitOn '/').map String.ofList, fun name hn => ?_, .inr ?_⟩
    · simp [segments, join, empty, hf, List.splitOn_append_cons_self,
        List.splitOn_eq_singleton hn]
    · simp [segments, hf, List.splitOn_append_cons_self]
  · refine ⟨segments directory, fun name hn => ?_, .inl rfl⟩
    simp [segments, join, empty, slash, List.splitOn_append_cons_self,
      List.splitOn_eq_singleton hn]

/-- Nothing counts behind a name but empty segments and single dots. -/
theorem components_of_segments (hs : segments path = above ++ name :: behind) (hn : IsName name)
    (idle : ∀ s ∈ behind, s = "" ∨ s = ".") :
    components path = above.filter (fun s => s ≠ "" ∧ s ≠ ".") ++ [name] := by
  have nothing : behind.filter (fun s => s ≠ "" ∧ s ≠ ".") = [] := by
    rw [List.filter_eq_nil_iff]
    intro s hm
    rcases idle s hm with rfl | rfl <;> decide
  rw [components, hs, List.filter_append, List.filter_cons_of_pos, nothing]
  simp [hn.nonempty, hn.notHere]

theorem components_join (directory : String) (hn : IsName name) :
    components (join directory name) = components directory ++ [name] := by
  obtain ⟨above, segments_eq, segments_directory⟩ := segments_join directory
  rw [components_of_segments (segments_eq name hn.oneSegment) hn (by simp), components]
  rcases segments_directory with hd | hd
  · rw [hd]
  · rw [hd, List.filter_append, List.filter_singleton]
    simp

theorem fileName?_of_components (hc : components path = above ++ [name]) (up : name ≠ "..") :
    fileName? path = some name := by
  have last : (components path).getLast? = some name := by rw [hc, List.getLast?_concat]
  rw [components] at last
  rw [fileName?, last]
  exact if_neg up

theorem fileName?_of_segments (hs : segments path = above ++ name :: behind) (hn : IsName name)
    (idle : ∀ s ∈ behind, s = "" ∨ s = ".") : fileName? path = some name :=
  fileName?_of_components (components_of_segments hs hn idle) hn.notUp

theorem fileName?_join (directory : String) (hn : IsName name) :
    fileName? (join directory name) = some name :=
  fileName?_of_components (components_join directory hn) hn.notUp

theorem exists_segments_of_fileName? (h : fileName? path = some name) :
    ∃ above behind, segments path = above ++ name :: behind ∧ IsName name ∧
      ∀ s ∈ behind, s = "" ∨ s = "." := by
  obtain ⟨last, up⟩ : (components path).getLast? = some name ∧ name ≠ ".." := by
    unfold fileName? at h
    split at h
    case h_1 last hl =>
      split_ifs at h with up
      obtain rfl := Option.some.inj h
      exact ⟨hl, up⟩
    case h_2 => cases h
  obtain ⟨counted, hc⟩ := List.getLast?_eq_some_iff.mp last
  obtain ⟨early, late, parts, -, hlate⟩ := List.filter_eq_append_iff.mp hc
  obtain ⟨skipped, behind, rfl, -, counts, idle⟩ := List.filter_eq_cons_iff.mp hlate
  rw [← List.append_assoc] at parts
  have hm : name ∈ segments path := by simp [parts]
  rw [decide_eq_true_eq] at counts
  refine ⟨early ++ skipped, behind, parts,
    ⟨notMem_of_mem_segments hm, counts.1, counts.2, up⟩, fun s hs => ?_⟩
  have passed := List.filter_eq_nil_iff.mp idle s hs
  by_cases nothing : s = ""
  · exact .inl nothing
  · exact .inr (by simpa [nothing] using passed)

theorem splitOn_flatMap {first : List Char} {behind : List (List Char)} (hf : '/' ∉ first)
    (hb : ∀ segment ∈ behind, '/' ∉ segment) :
    (first ++ behind.flatMap ('/' :: ·)).splitOn '/' = first :: behind := by
  induction behind generalizing first with
  | nil => simp [List.splitOn_eq_singleton hf]
  | cons second behind ih =>
    have rest : (second ++ behind.flatMap ('/' :: ·)).splitOn '/' = second :: behind :=
      ih (hb second (by simp)) fun segment hs => hb segment (by simp [hs])
    rw [List.flatMap_cons, List.cons_append, List.splitOn_append_cons_self,
      List.splitOn_eq_singleton hf, rest, List.singleton_append]

theorem intercalate_cons (first : List Char) (behind : List (List Char)) :
    List.intercalate ['/'] (first :: behind) = first ++ behind.flatMap ('/' :: ·) := by
  induction behind generalizing first with
  | nil => simp
  | cons second behind ih => simp [List.intercalate_cons_cons, ih]

/-- The segments of a path make it up, seen from any one of them. -/
theorem intercalate_append (above : List (List Char)) (name : List Char)
    (behind : List (List Char)) : List.intercalate ['/'] (above ++ name :: behind) =
      above.flatMap (· ++ ['/']) ++ (name ++ behind.flatMap ('/' :: ·)) := by
  induction above with
  | nil => exact intercalate_cons name behind
  | cons first above ih =>
    obtain ⟨second, rest, hr⟩ : ∃ second rest, above ++ name :: behind = second :: rest := by
      cases above <;> exact ⟨_, _, rfl⟩
    rw [List.cons_append, hr, List.intercalate_cons_cons, ← hr, ih]
    simp

/-- The segments after a slash do not depend on what stands before it. -/
theorem splitOn_front {front : List Char} (hf : ∀ c ∈ front.getLast?, c = '/')
    (rest : List Char) : ∃ above, (front ++ rest).splitOn '/' = above ++ rest.splitOn '/' := by
  rcases List.eq_nil_or_concat front with rfl | ⟨front, c, rfl⟩
  · exact ⟨[], rfl⟩
  · obtain rfl : c = '/' := hf c (by simp)
    exact ⟨front.splitOn '/', by simp [List.splitOn_append_cons_self]⟩

theorem EndsIn.fileName?_eq (h : EndsIn path name) : fileName? path = some name := by
  obtain ⟨isName, front, behind, text, hf, idle⟩ := h
  have apart : ∀ segment ∈ behind, '/' ∉ segment := by
    intro segment hs
    rcases idle segment hs with rfl | rfl <;> decide
  obtain ⟨above, split⟩ := splitOn_front hf (name.toList ++ behind.flatMap ('/' :: ·))
  have parts : segments path = above.map String.ofList ++ name :: behind.map String.ofList := by
    rw [segments, ← text, split, splitOn_flatMap isName.oneSegment apart]
    simp
  refine fileName?_of_segments parts isName fun s hs => ?_
  obtain ⟨segment, hm, rfl⟩ := List.mem_map.mp hs
  rcases idle segment hm with rfl | rfl <;> decide

theorem endsIn_of_fileName? (h : fileName? path = some name) : EndsIn path name := by
  obtain ⟨above, behind, parts, isName, idle⟩ := exists_segments_of_fileName? h
  have texts : path.toList.splitOn '/' =
      above.map String.toList ++ name.toList :: behind.map String.toList := by
    rw [← List.map_cons, ← List.map_append, ← parts, segments, List.map_map]
    simp [Function.comp_def]
  refine ⟨isName, (above.map String.toList).flatMap (· ++ ['/']), behind.map String.toList,
    ?_, ?_, ?_⟩
  · rw [← intercalate_append, ← texts, List.intercalate_splitOn]
  · intro c hc
    rcases List.eq_nil_or_concat above with rfl | ⟨above, last, rfl⟩
    · simp at hc
    · simpa using hc.symm
  · intro segment hs
    obtain ⟨s, hm, rfl⟩ := List.mem_map.mp hs
    rcases idle s hm with rfl | rfl
    · exact .inl rfl
    · exact .inr rfl

theorem fileName?_eq_some_iff : fileName? path = some name ↔ EndsIn path name :=
  ⟨endsIn_of_fileName?, EndsIn.fileName?_eq⟩

/-- What stands behind a stem and a dot is the extension. -/
theorem splitExtension_append (hs : stem ≠ "") (he : '.' ∉ extension.toList) :
    splitExtension (stem ++ "." ++ extension) = (stem, some extension) := by
  have back : (stem ++ "." ++ extension).toList.reverse =
      extension.toList.reverse ++ '.' :: stem.toList.reverse := by simp
  have inside : ∀ c ∈ extension.toList.reverse, decide (c ≠ '.') = true := by
    intro c hc
    rw [decide_eq_true_eq]
    rintro rfl
    exact he (List.mem_reverse.mp hc)
  have ended : ∀ c ∈ ('.' :: stem.toList.reverse).head?, decide (c ≠ '.') = false := by simp
  have front : stem.toList.reverse ≠ [] := by simpa using hs
  simp only [splitExtension, back, dropWhile_run inside ended, takeWhile_run inside ended,
    if_neg front, List.reverse_reverse, String.ofList_toList]

theorem Cut.stem_eq (h : Cut name stem) : (splitExtension name).1 = stem := by
  cases h with
  | extension front last => rw [splitExtension_append front last]
  | whole plain =>
    cases hn : name.toList with
    | nil => simp [splitExtension, hn]
    | cons c rest =>
      rw [hn, List.tail_cons] at plain
      have apart : ∀ a ∈ rest.reverse, decide (a ≠ '.') = true := by
        intro a ha
        rw [decide_eq_true_eq]
        rintro rfl
        exact plain (List.mem_reverse.mp ha)
      -- Only the first character can be a dot, and nothing stands before that.
      rw [splitExtension, hn, List.reverse_cons, List.dropWhile_append_of_pos apart]
      by_cases dot : c = '.' <;> simp [dot]

theorem exists_cut (name : String) : ∃ stem, Cut name stem := by
  by_cases plain : '.' ∈ name.toList.tail
  case neg => exact ⟨name, .whole plain⟩
  obtain ⟨c, rest, hn⟩ : ∃ c rest, name.toList = c :: rest :=
    List.ne_nil_iff_exists_cons.mp fun empty => by simp [empty] at plain
  rw [hn, List.tail_cons] at plain
  obtain ⟨extension, front, back, last⟩ :=
    List.eq_append_cons_of_mem (List.mem_reverse.mpr plain)
  refine ⟨String.ofList (c :: front.reverse), ?_⟩
  have parts : name =
      String.ofList (c :: front.reverse) ++ "." ++ String.ofList extension.reverse := by
    rw [List.reverse_eq_iff] at back
    rw [← String.toList_inj]
    simp [hn, back]
  rw [parts]
  exact .extension (by simp) (by simpa using last)

/-- Each name has one stem, the one that `splitExtension` finds. -/
theorem cut_iff : Cut name stem ↔ (splitExtension name).1 = stem := by
  refine ⟨Cut.stem_eq, ?_⟩
  rintro rfl
  obtain ⟨found, cut⟩ := exists_cut name
  rwa [cut.stem_eq]

theorem Cut.mem (h : Cut name stem) {c : Char} (hc : c ∈ stem.toList) : c ∈ name.toList := by
  cases h with
  | extension front last => simp [hc]
  | whole plain => exact hc

theorem Cut.ne_empty (h : Cut name stem) (nonempty : name ≠ "") : stem ≠ "" := by
  cases h with
  | extension front last => exact front
  | whole plain => exact nonempty

end FormulaDigest.Path
