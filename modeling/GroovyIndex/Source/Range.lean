import GroovyIndex.Source.Position

/-!
# Ranges of a document

A range runs from `start` to `stop` and contains both: a cursor right behind an identifier still
touches it. A range whose end comes before its start is *inverted* and contains nothing. Of
several ranges around a position the *tightest* is preferred, by `extent` and then by the later
start.
-/

namespace GroovyIndex

/-- The stretch of a document from `start` to `stop`, both included. -/
structure Range where
  start : Position
  stop : Position
  deriving DecidableEq, Repr, Hashable

/-- How far a range reaches: lines crossed, then columns. -/
structure Extent where
  lines : Nat
  cols : Nat
  deriving DecidableEq, Repr

namespace Extent

instance : LT Extent := ⟨fun a b => a.lines < b.lines ∨ a.lines = b.lines ∧ a.cols < b.cols⟩

instance (a b : Extent) : Decidable (a < b) :=
  inferInstanceAs (Decidable (a.lines < b.lines ∨ a.lines = b.lines ∧ a.cols < b.cols))

/-- The order as a three-way comparison. -/
protected def compare (a b : Extent) : Ordering :=
  (compare a.lines b.lines).then (compare a.cols b.cols)

instance : Ord Extent := ⟨Extent.compare⟩

theorem lt_def {a b : Extent} :
    a < b ↔ a.lines < b.lines ∨ a.lines = b.lines ∧ a.cols < b.cols := Iff.rfl

end Extent

namespace Range

/-- The range with the given corners, written as four numbers. -/
def ofCorners (startLine startCol stopLine stopCol : Nat) : Range :=
  ⟨⟨startLine, startCol⟩, ⟨stopLine, stopCol⟩⟩

/-- Membership of a position, inclusive on both ends. -/
def contains (r : Range) (p : Position) : Bool := r.start ≤ p && p ≤ r.stop

/-- The other range lies inside this one. -/
def containsRange (r other : Range) : Bool := r.start ≤ other.start && other.stop ≤ r.stop

/-- The range covers a single point. -/
def isEmpty (r : Range) : Bool := r.start == r.stop

/-- The end comes before the start. -/
def isInverted (r : Range) : Bool := decide (r.stop < r.start)

/-- Lines crossed, then columns: on one line the width, otherwise the column of the end. -/
def extent (r : Range) : Extent :=
  let lines := r.stop.line - r.start.line
  ⟨lines, if lines = 0 then r.stop.col - r.start.col else r.stop.col⟩

/-- `a` is tighter than `b`: of smaller extent, or of the same extent and starting later. -/
def Tighter (a b : Range) : Prop :=
  a.extent < b.extent ∨ a.extent = b.extent ∧ b.start < a.start

instance (a b : Range) : Decidable (a.Tighter b) :=
  inferInstanceAs (Decidable (a.extent < b.extent ∨ a.extent = b.extent ∧ b.start < a.start))

/-- The text `line:col-line:col`. -/
protected def toString (r : Range) : String := s!"{r.start}-{r.stop}"

instance : ToString Range := ⟨Range.toString⟩

theorem contains_iff {r : Range} {p : Position} :
    r.contains p = true ↔ r.start ≤ p ∧ p ≤ r.stop := by
  simp [contains]

theorem containsRange_iff {r other : Range} :
    r.containsRange other = true ↔ r.start ≤ other.start ∧ other.stop ≤ r.stop := by
  simp [containsRange]

theorem containsRange_self (r : Range) : r.containsRange r = true :=
  containsRange_iff.mpr ⟨Position.le_refl _, Position.le_refl _⟩

theorem containsRange_trans {a b c : Range} (hab : a.containsRange b = true)
    (hbc : b.containsRange c = true) : a.containsRange c = true := by
  rw [containsRange_iff] at *
  exact ⟨Position.le_trans hab.1 hbc.1, Position.le_trans hbc.2 hab.2⟩

theorem contains_of_containsRange {a b : Range} {p : Position} (hab : a.containsRange b = true)
    (hb : b.contains p = true) : a.contains p = true := by
  rw [containsRange_iff] at hab
  rw [contains_iff] at *
  exact ⟨Position.le_trans hab.1 hb.1, Position.le_trans hb.2 hab.2⟩

theorem isInverted_iff {r : Range} : r.isInverted = true ↔ r.stop < r.start := by
  simp [isInverted]

theorem isInverted_eq_false_iff {r : Range} : r.isInverted = false ↔ r.start ≤ r.stop := by
  rw [← Bool.not_eq_true, isInverted_iff, ← Position.not_le, Decidable.not_not]

end Range

end GroovyIndex
