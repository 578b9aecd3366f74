import FormulaDigest.Proofs.Traversal

/-!
# Why a sheet is refused

The cells of a sheet are checked one after the other until one is at fault, in no particular order.
Whatever the order, the sheet is accepted exactly if it is consistent, and otherwise it is refused
for a fault that it shows. A sheet shows several faults only if several of its cells are bad, so
with one bad cell the order does not matter at all.
-/
namespace FormulaDigest.Sheet

/-- The first fault of a sheet whose cells are checked in a given order. -/
def faultAlong? (s : Sheet) (order : List (Position × Cell)) : Option Fault :=
  match s.range with
  | none => if order.isEmpty then none else some .noRange
  | some r =>
    if r.WellFormed then order.findSome? fun entry => cellFault? r entry.1 entry.2
    else some (.inverted r)

/-- Extraction with the cells checked in a given order. -/
def extractAlong (s : Sheet) (order : List (Position × Cell)) (h : Headers)
    (substitute : String → Headers → String) : Except Malformed (List Record) :=
  match s.faultAlong? order, s.range with
  | some fault, _ => .error ⟨s.name, fault⟩
  | none, none => .ok []
  | none, some r => .ok (s.recordsIn h substitute r)

/-- The faults that a sheet shows. A missing range hides all others and an inverted one those of
the cells. A cell under a wrong key is misplaced, wherever the key lies. -/
inductive Shows (s : Sheet) : Fault → Prop
  | noRange (range : s.range = none) (stored : s.cells ≠ ∅) : Shows s .noRange
  | inverted {r : Range} (range : s.range = some r) (inverted : ¬ r.WellFormed) :
      Shows s (.inverted r)
  | misplaced {r : Range} {key : Position} {c : Cell} (range : s.range = some r)
      (wellFormed : r.WellFormed) (stored : s.cells[key]? = some c) (moved : c.position ≠ key) :
      Shows s (.misplaced key c.position)
  | outside {r : Range} {key : Position} {c : Cell} (range : s.range = some r)
      (wellFormed : r.WellFormed) (stored : s.cells[key]? = some c) (own : c.position = key)
      (out : key ∉ r) : Shows s (.outside key)

/-- A stored cell that is not under its own position or not inside the range. -/
def IsBad (s : Sheet) (r : Range) (key : Position) (c : Cell) : Prop :=
  s.cells[key]? = some c ∧ (c.position ≠ key ∨ key ∉ r)

variable {s : Sheet} {r : Range} {key : Position} {c : Cell} {fault : Fault}
  {order : List (Position × Cell)} {h : Headers} {substitute : String → Headers → String}

theorem extract_eq_extractAlong (s : Sheet) (h : Headers)
    (substitute : String → Headers → String) :
    s.extract h substitute = s.extractAlong s.cells.toList h substitute := by
  have same : s.fault? = s.faultAlong? s.cells.toList := by
    unfold fault? faultAlong?
    cases s.range with
    | none => rw [Std.ExtTreeMap.isEmpty_toList]
    | some r => rfl
  unfold extract extractAlong
  generalize s.faultAlong? s.cells.toList = found at same ⊢
  subst same
  rfl

section
variable (perm : order.Perm s.cells.toList)
include perm

theorem mem_order {entry : Position × Cell} :
    entry ∈ order ↔ s.cells[entry.1]? = some entry.2 := by
  rw [perm.mem_iff]
  exact Std.ExtTreeMap.mem_toList_iff_getElem?_eq_some

/-- Every order finds a fault or none does. -/
theorem faultAlong?_eq_none_iff : s.faultAlong? order = none ↔ s.Consistent := by
  rw [← fault?_eq_none_iff]
  unfold faultAlong? fault?
  cases s.range with
  | none => rw [perm.isEmpty_eq, Std.ExtTreeMap.isEmpty_toList]
  | some r =>
    by_cases wellFormed : r.WellFormed
    · simp only [if_pos wellFormed, List.findSome?_eq_none_iff, perm.mem_iff]
    · simp only [if_neg wellFormed]

/-- A fault that is found in some order is one that the sheet shows. -/
theorem shows_of_faultAlong? (found : s.faultAlong? order = some fault) : s.Shows fault := by
  unfold faultAlong? at found
  cases range : s.range with
  | none =>
    simp only [range, Option.ite_none_left_eq_some, Option.some.injEq] at found
    obtain ⟨stored, rfl⟩ := found
    refine .noRange range fun empty => stored ?_
    rw [perm.isEmpty_eq, empty]
    rfl
  | some r =>
    simp only [range] at found
    split_ifs at found with wellFormed
    · obtain ⟨⟨key, c⟩, hc, fault⟩ := List.exists_of_findSome?_eq_some found
      have stored : s.cells[key]? = some c := (mem_order perm).mp hc
      unfold cellFault? at fault
      split_ifs at fault with moved out
      · obtain rfl := Option.some.inj fault
        exact .misplaced range wellFormed stored moved
      · obtain rfl := Option.some.inj fault
        exact .outside range wellFormed stored (not_not.mp moved) out
    · obtain rfl := Option.some.inj found
      exact .inverted range wellFormed

/-- An inconsistent sheet is refused under its own name for a fault that it shows. -/
theorem extractAlong_of_not_consistent (contradicts : ¬ s.Consistent) :
    ∃ fault, s.Shows fault ∧ s.extractAlong order h substitute = .error ⟨s.name, fault⟩ := by
  obtain ⟨fault, found⟩ := Option.ne_none_iff_exists'.mp
    (mt (faultAlong?_eq_none_iff perm).mp contradicts)
  refine ⟨fault, shows_of_faultAlong? perm found, ?_⟩
  rw [extractAlong, found]

/-- A sheet is accepted in one order as in any other, with the same records. -/
theorem extractAlong_of_consistent (consistent : s.Consistent) :
    s.extractAlong order h substitute = s.extract h substitute := by
  have none_along := (faultAlong?_eq_none_iff perm).mpr consistent
  have none_sorted := (faultAlong?_eq_none_iff (.refl s.cells.toList)).mpr consistent
  rw [extract_eq_extractAlong, extractAlong, extractAlong, none_along, none_sorted]

theorem extractAlong_eq_ok_iff :
    (∃ records, s.extractAlong order h substitute = .ok records) ↔ s.Consistent := by
  constructor
  · rintro ⟨records, ok⟩
    by_contra contradicts
    obtain ⟨fault, -, refused⟩ :
        ∃ fault, s.Shows fault ∧ s.extractAlong order h substitute = .error ⟨s.name, fault⟩ :=
      extractAlong_of_not_consistent perm contradicts
    rw [ok] at refused
    cases refused
  · intro consistent
    rw [extractAlong_of_consistent perm consistent]
    exact ⟨_, extract_eq_ok_iff.mpr ⟨consistent, rfl⟩⟩

end

theorem Shows.not_consistent (shown : s.Shows fault) : ¬ s.Consistent := by
  rintro (⟨range, cells⟩ | ⟨r, range, wellFormed, fits⟩)
  · cases shown <;> simp_all
  · cases shown with
    | noRange range' _ => simp_all
    | inverted range' inverted => simp_all
    | misplaced _ _ stored moved => exact moved (fits _ _ stored).1
    | outside range' _ stored _ out =>
      obtain rfl := Option.some.inj (range.symm.trans range')
      exact out (fits _ _ stored).2

/-- Where a sheet shows one fault alone, that is the reason in every order. -/
theorem Shows.extractAlong (shown : s.Shows fault) (only : ∀ other, s.Shows other → other = fault)
    (perm : order.Perm s.cells.toList) :
    s.extractAlong order h substitute = .error ⟨s.name, fault⟩ := by
  obtain ⟨other, shown', refused⟩ :
      ∃ other, s.Shows other ∧ s.extractAlong order h substitute = .error ⟨s.name, other⟩ :=
    extractAlong_of_not_consistent perm shown.not_consistent
  rw [refused, only other shown']

theorem Shows.eq_noRange (range : s.range = none) (shown : s.Shows fault) : fault = .noRange := by
  cases shown <;> simp_all

theorem Shows.eq_inverted (range : s.range = some r) (inverted : ¬ r.WellFormed)
    (shown : s.Shows fault) : fault = .inverted r := by
  cases shown <;> simp_all

section
variable (range : s.range = some r) (wellFormed : r.WellFormed) (bad : s.IsBad r key c)
include range wellFormed bad

theorem IsBad.shows :
    s.Shows (if c.position = key then .outside key else .misplaced key c.position) := by
  split_ifs with own
  · exact .outside range wellFormed bad.1 own (bad.2.resolve_left fun moved => moved own)
  · exact .misplaced range wellFormed bad.1 own

/-- One bad cell leaves one fault, and a wrong key counts before a key outside the range. -/
theorem IsBad.eq_of_shows (only : ∀ other d, s.IsBad r other d → other = key)
    (shown : s.Shows fault) :
    fault = if c.position = key then .outside key else .misplaced key c.position := by
  cases shown with
  | noRange range' _ => simp_all
  | inverted range' inverted => simp_all
  | misplaced range' _ stored moved =>
    obtain rfl := only _ _ ⟨stored, .inl moved⟩
    obtain rfl := Option.some.inj (bad.1.symm.trans stored)
    rw [if_neg moved]
  | outside range' _ stored own out =>
    obtain rfl := Option.some.inj (range.symm.trans range')
    obtain rfl := only _ _ ⟨stored, .inr out⟩
    obtain rfl := Option.some.inj (bad.1.symm.trans stored)
    rw [if_pos own]

end

/-- In whatever order its cells are checked, a sheet is accepted exactly if it is consistent, with
the same records, and otherwise refused under its own name for a fault that it shows. A missing
range comes before an inverted one, and both before the cells. A single bad cell is the reason in
every order: as misplaced if its key is wrong, and else as outside the range. -/
theorem extract_acceptance (s : Sheet) (h : Headers) (substitute : String → Headers → String) :
    s.extract h substitute = s.extractAlong s.cells.toList h substitute ∧
    ∀ order, order.Perm s.cells.toList →
      ((∃ records, s.extractAlong order h substitute = .ok records) ↔ s.Consistent) ∧
      (s.Consistent → s.extractAlong order h substitute = s.extract h substitute) ∧
      (¬ s.Consistent →
        ∃ fault, s.Shows fault ∧ s.extractAlong order h substitute = .error ⟨s.name, fault⟩) ∧
      (s.range = none → s.cells ≠ ∅ →
        s.extractAlong order h substitute = .error ⟨s.name, .noRange⟩) ∧
      (∀ r, s.range = some r → ¬ r.WellFormed →
        s.extractAlong order h substitute = .error ⟨s.name, .inverted r⟩) ∧
      ∀ r key c, s.range = some r → r.WellFormed → s.IsBad r key c →
        (∀ other d, s.IsBad r other d → other = key) →
        ∃ fault, s.extractAlong order h substitute = .error ⟨s.name, fault⟩ ∧
          (c.position ≠ key → fault = .misplaced key c.position ∧ fault.reason =
            "cell stored at " ++ key.a1 ++ " reports position " ++ c.position.a1) ∧
          (c.position = key → fault = .outside key ∧ fault.reason =
            "cell " ++ key.a1 ++ " lies outside the declared range") := by
  refine ⟨extract_eq_extractAlong s h substitute, fun order perm => ?_⟩
  refine ⟨extractAlong_eq_ok_iff perm, extractAlong_of_consistent perm,
    extractAlong_of_not_consistent perm, ?_, ?_, ?_⟩
  · intro range stored
    exact Shows.extractAlong (.noRange range stored) (fun _ => Shows.eq_noRange range) perm
  · intro r range inverted
    exact Shows.extractAlong (.inverted range inverted)
      (fun _ => Shows.eq_inverted range inverted) perm
  · intro r key c range wellFormed bad only
    refine ⟨_, (bad.shows range wellFormed).extractAlong
      (fun _ => bad.eq_of_shows range wellFormed only) perm, fun moved => ?_, fun own => ?_⟩
    · rw [if_neg moved]
      exact ⟨rfl, rfl⟩
    · rw [if_pos own]
      exact ⟨rfl, rfl⟩

/-- A cell that is neither under its own position nor inside the range. -/
def drifted : Sheet :=
  ((Sheet.empty "Data").insert ⟨⟨0, 0⟩, some (.boolean true), none⟩).put ⟨9, 9⟩
    ⟨⟨3, 3⟩, none, some "=A1"⟩

/-- An inverted range without any cell. -/
def hollow : Sheet := (Sheet.empty "Data").declare (some ⟨⟨3, 0⟩, ⟨0, 0⟩⟩)

theorem isBad_drifted : drifted.IsBad ⟨⟨0, 0⟩, ⟨0, 0⟩⟩ ⟨9, 9⟩ ⟨⟨3, 3⟩, none, some "=A1"⟩ :=
  ⟨by simp [drifted, cells_put], .inl (by decide)⟩

theorem eq_of_isBad_drifted {key : Position} {c : Cell}
    (bad : drifted.IsBad ⟨⟨0, 0⟩, ⟨0, 0⟩⟩ key c) : key = ⟨9, 9⟩ := by
  obtain ⟨stored, fault⟩ := bad
  simp only [drifted, cells_put, cells_insert] at stored
  split_ifs at stored with last first
  · exact last.symm
  · obtain rfl := Option.some.inj stored
    subst first
    exact absurd fault (by decide)
  · simp [empty] at stored

theorem extract_acceptance_drifted :
    let substitute : String → Headers → String := fun formula h => h.substitute formula
    drifted.extractAlong drifted.cells.toList.reverse .empty substitute =
        .error ⟨"Data", .misplaced ⟨9, 9⟩ ⟨3, 3⟩⟩ ∧
      Fault.reason (.misplaced ⟨9, 9⟩ ⟨3, 3⟩) = "cell stored at J10 reports position D4" ∧
      ¬ drifted.Consistent ∧
      hollow.extractAlong [] .empty substitute = .error ⟨"Data", .inverted ⟨⟨3, 0⟩, ⟨0, 0⟩⟩⟩ := by
  intro substitute
  obtain ⟨-, checked⟩ := extract_acceptance drifted .empty substitute
  obtain ⟨accepted, -, -, -, -, single⟩ := checked _ (List.reverse_perm _)
  obtain ⟨fault, refused, misplaced, -⟩ :=
    single _ _ _ rfl (by decide) isBad_drifted fun _ _ => eq_of_isBad_drifted
  obtain ⟨rfl, reason⟩ := misplaced (by decide)
  have contradicts : ¬ drifted.Consistent := by
    rw [← accepted, refused]
    simp
  obtain ⟨-, checked_hollow⟩ := extract_acceptance hollow .empty substitute
  obtain ⟨-, -, -, -, inverted, -⟩ := checked_hollow [] (by rfl)
  exact ⟨refused, reason.trans (by cbv), contradicts, inverted _ rfl (by decide)⟩

end FormulaDigest.Sheet
