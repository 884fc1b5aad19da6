/-!
# Positions in a document

A position is a zero-based line and a zero-based column. Positions are ordered by line and then
by column, which is the order in which a reader meets them.
-/

namespace GroovyIndex

/-- A zero-based line and column. -/
structure Position where
  line : Nat
  col : Nat
  deriving DecidableEq, Repr, Hashable

namespace Position

/-- The first position of every document. -/
def origin : Position := ⟨0, 0⟩

instance : Inhabited Position := ⟨origin⟩

/-- `a` comes strictly before `b`: on an earlier line, or on the same line further left. -/
protected def Before (a b : Position) : Prop :=
  a.line < b.line ∨ a.line = b.line ∧ a.col < b.col

/-- `a` comes before `b` or is `b`. -/
protected def AtMost (a b : Position) : Prop :=
  a.line < b.line ∨ a.line = b.line ∧ a.col ≤ b.col

instance : LT Position := ⟨Position.Before⟩

instance : LE Position := ⟨Position.AtMost⟩

instance (a b : Position) : Decidable (a < b) :=
  inferInstanceAs (Decidable (a.line < b.line ∨ a.line = b.line ∧ a.col < b.col))

instance (a b : Position) : Decidable (a ≤ b) :=
  inferInstanceAs (Decidable (a.line < b.line ∨ a.line = b.line ∧ a.col ≤ b.col))

/-- The order as a three-way comparison. -/
protected def compare (a b : Position) : Ordering :=
  (compare a.line b.line).then (compare a.col b.col)

instance : Ord Position := ⟨Position.compare⟩

/-- The text `line:col`. -/
protected def toString (p : Position) : String := s!"{p.line}:{p.col}"

instance : ToString Position := ⟨Position.toString⟩

theorem lt_def {a b : Position} :
    a < b ↔ a.line < b.line ∨ a.line = b.line ∧ a.col < b.col := Iff.rfl

theorem le_def {a b : Position} :
    a ≤ b ↔ a.line < b.line ∨ a.line = b.line ∧ a.col ≤ b.col := Iff.rfl

protected theorem le_refl (a : Position) : a ≤ a := by
  rw [le_def]; omega

protected theorem le_trans {a b c : Position} (hab : a ≤ b) (hbc : b ≤ c) : a ≤ c := by
  rw [le_def] at *; omega

protected theorem le_total (a b : Position) : a ≤ b ∨ b ≤ a := by
  rw [le_def, le_def]; omega

protected theorem le_antisymm {a b : Position} (hab : a ≤ b) (hba : b ≤ a) : a = b := by
  rw [le_def] at *
  cases a; cases b
  simp only [mk.injEq] at *
  omega

protected theorem not_le {a b : Position} : ¬ a ≤ b ↔ b < a := by
  rw [le_def, lt_def]; omega

protected theorem le_of_lt {a b : Position} (h : a < b) : a ≤ b := by
  rw [lt_def] at h; rw [le_def]; omega

protected theorem lt_irrefl (a : Position) : ¬ a < a := by
  rw [lt_def]; omega

protected theorem lt_trans {a b c : Position} (hab : a < b) (hbc : b < c) : a < c := by
  rw [lt_def] at *; omega

protected theorem lt_of_le_of_ne {a b : Position} (hab : a ≤ b) (hne : a ≠ b) : a < b := by
  apply Position.not_le.mp
  intro hba
  exact hne (Position.le_antisymm hab hba)

end Position

end GroovyIndex
