import FormulaDigest.Position

/-!
# Ranges

A range is the rectangle between two corners, both included. A range whose first corner lies past
its last one is inverted and covers nothing.
-/
namespace FormulaDigest

/-- The numbers from `first` to `last`, both included. -/
structure Interval where
  first : Nat
  last : Nat
  deriving DecidableEq, Repr

namespace Interval

def size (i : Interval) : Nat := i.last + 1 - i.first

def toList (i : Interval) : List Nat := List.range' i.first i.size

/-- The first `n` members, without listing the others. -/
def firstMembers (i : Interval) (n : Nat) : List Nat := List.range' i.first (min n i.size)

instance : Membership Nat Interval := ⟨fun i n => i.first ≤ n ∧ n ≤ i.last⟩

instance (n : Nat) (i : Interval) : Decidable (n ∈ i) :=
  inferInstanceAs (Decidable (i.first ≤ n ∧ n ≤ i.last))

theorem mem_iff {i : Interval} {n : Nat} : n ∈ i ↔ i.first ≤ n ∧ n ≤ i.last := Iff.rfl

theorem mem_toList {i : Interval} {n : Nat} : n ∈ i.toList ↔ n ∈ i := by
  rw [toList, size, List.mem_range'_1, mem_iff]
  omega

theorem firstMembers_eq_take (i : Interval) (n : Nat) : i.firstMembers n = i.toList.take n := by
  apply List.ext_getElem
  · simp [firstMembers, toList]
  · simp [firstMembers, toList]

end Interval

structure Range where
  first : Position
  last : Position
  deriving DecidableEq, Repr

namespace Range

def rows (r : Range) : Interval := ⟨r.first.row, r.last.row⟩

def columns (r : Range) : Interval := ⟨r.first.column, r.last.column⟩

/-- The first corner does not exceed the last one. -/
def WellFormed (r : Range) : Prop :=
  r.first.row ≤ r.last.row ∧ r.first.column ≤ r.last.column

instance (r : Range) : Decidable r.WellFormed :=
  inferInstanceAs (Decidable (_ ∧ _))

instance : Membership Position Range := ⟨fun r p => p.row ∈ r.rows ∧ p.column ∈ r.columns⟩

instance (p : Position) (r : Range) : Decidable (p ∈ r) :=
  inferInstanceAs (Decidable (_ ∧ _))

/-- The range of a single cell. -/
def single (p : Position) : Range := ⟨p, p⟩

/-- The smallest range that covers a range and a position. -/
def cover (r : Range) (p : Position) : Range :=
  ⟨⟨min r.first.row p.row, min r.first.column p.column⟩,
    ⟨max r.last.row p.row, max r.last.column p.column⟩⟩

theorem mem_iff {r : Range} {p : Position} :
    p ∈ r ↔ (r.first.row ≤ p.row ∧ p.row ≤ r.last.row) ∧
      r.first.column ≤ p.column ∧ p.column ≤ r.last.column := Iff.rfl

theorem mem_single {p q : Position} : q ∈ single p ↔ q = p := by
  cases p; cases q
  simp only [mem_iff, single, Position.mk.injEq]
  omega

theorem mem_cover_self (r : Range) (p : Position) : p ∈ r.cover p := by
  simp only [mem_iff, cover]
  omega

theorem mem_cover_of_mem {r : Range} {p q : Position} (h : q ∈ r) : q ∈ r.cover p := by
  simp only [mem_iff, cover] at h ⊢
  omega

end Range

end FormulaDigest
