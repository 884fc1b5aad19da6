import GroovyIndex.Lsp

/-!
# Order in the protocol

Each number keeps its order when it is cut off at the protocol's largest one, but a pair of line
and column does not: two lines that are both cut off become one, and the columns decide
(`Swapped`). No order of positions, ranges or edits is lost in another way.
-/

namespace GroovyIndex.Lsp

theorem saturate_le_saturate {m n : Nat} (h : m ≤ n) : saturate m ≤ saturate n := by
  rw [saturate, saturate]
  omega

/-- Two numbers stay apart exactly if the smaller one is below the largest that fits. -/
theorem saturate_lt_saturate_iff {m n : Nat} : saturate m < saturate n ↔ m < n ∧ m < maxCount := by
  rw [saturate, saturate]
  omega

theorem saturate_of_le {n : Nat} (h : maxCount ≤ n) : saturate n = maxCount :=
  Nat.min_eq_right h

/-- The positions are on different lines, which both become the last line of the protocol. There the
second one comes before the first. -/
def Swapped (a b : GroovyIndex.Position) : Prop :=
  a.line < b.line ∧ maxCount ≤ a.line ∧ saturate b.col < saturate a.col

instance (a b : GroovyIndex.Position) : Decidable (Swapped a b) :=
  inferInstanceAs
    (Decidable (a.line < b.line ∧ maxCount ≤ a.line ∧ saturate b.col < saturate a.col))

namespace Position

/-- Positions in order stay in order, unless they are swapped on the last line. -/
theorem ofPosition_le_iff {a b : GroovyIndex.Position} (h : a ≤ b) :
    ofPosition a ≤ ofPosition b ↔ ¬ Swapped a b := by
  rw [le_def]
  simp only [ofPosition, Swapped]
  rcases GroovyIndex.Position.le_def.mp h with hline | ⟨hline, hcol⟩
  · by_cases hfits : a.line < maxCount
    · -- The first line fits, so the lines stay apart.
      have hlt := saturate_lt_saturate_iff.mpr ⟨hline, hfits⟩
      omega
    · have ha : saturate a.line = maxCount := saturate_of_le (by omega)
      have hb : saturate b.line = maxCount := saturate_of_le (by omega)
      omega
  · have hle := saturate_le_saturate hcol
    rw [hline]
    omega

end Position

/-- A list in the order of some positions stays in order exactly if no member and a later
one are swapped. -/
theorem pairwise_ofPosition_iff {α : Type} {start : α → GroovyIndex.Position} {xs : List α}
    (h : xs.Pairwise fun x y => start x ≤ start y) :
    (xs.Pairwise fun x y => Position.ofPosition (start x) ≤ Position.ofPosition (start y)) ↔
      xs.Pairwise fun x y => ¬ Swapped (start x) (start y) := by
  constructor
  · intro hkept
    exact h.imp₂ (fun _ _ hle => (Position.ofPosition_le_iff hle).mp) hkept
  · intro hnot
    exact h.imp₂ (fun _ _ hle => (Position.ofPosition_le_iff hle).mpr) hnot

/-- The protocol keeps the order of two positions, of the ends of a range, and of edits exactly if
none are swapped. -/
theorem order_kept_unless_swapped :
    (∀ a b : GroovyIndex.Position, a ≤ b →
      (Position.ofPosition a ≤ Position.ofPosition b ↔ ¬ Swapped a b)) ∧
    (∀ r : GroovyIndex.Range, r.isInverted = false →
      ((Range.ofRange r).start ≤ (Range.ofRange r).stop ↔ ¬ Swapped r.start r.stop)) ∧
    (∀ e : GroovyIndex.TextEdit, e.range.isInverted = false →
      ((TextEdit.ofTextEdit e).range.start ≤ (TextEdit.ofTextEdit e).range.stop ↔
        ¬ Swapped e.range.start e.range.stop)) ∧
    (∀ h : GroovyIndex.Highlight, h.range.isInverted = false →
      ((Highlight.ofHighlight h).range.start ≤ (Highlight.ofHighlight h).range.stop ↔
        ¬ Swapped h.range.start h.range.stop)) ∧
    ∀ edits : List GroovyIndex.TextEdit,
      (edits.Pairwise fun e f => e.range.start ≤ f.range.start) →
      (((edits.map TextEdit.ofTextEdit).Pairwise fun e f => e.range.start ≤ f.range.start) ↔
        edits.Pairwise fun e f => ¬ Swapped e.range.start f.range.start) := by
  have hrange (r : GroovyIndex.Range) (hr : r.isInverted = false) :
      (Range.ofRange r).start ≤ (Range.ofRange r).stop ↔ ¬ Swapped r.start r.stop :=
    Position.ofPosition_le_iff (Range.isInverted_eq_false_iff.mp hr)
  refine ⟨fun a b => Position.ofPosition_le_iff, hrange, fun e => hrange e.range,
    fun h => hrange h.range, ?_⟩
  intro edits hsorted
  rw [List.pairwise_map]
  exact pairwise_ofPosition_iff hsorted

/-- From the last line of the protocol to the line behind it. -/
private def rising : GroovyIndex.Range := .ofCorners 4294967295 3 4294967296 5

/-- From the last line of the protocol to the line behind it, but further left. -/
private def falling : GroovyIndex.Range := .ofCorners 4294967295 5 4294967296 3

/-- An edit at each end of a range. -/
private def endEdits (r : GroovyIndex.Range) : List GroovyIndex.TextEdit :=
  [⟨⟨r.start, r.start⟩, "("⟩, ⟨⟨r.stop, r.stop⟩, ")"⟩]

/-- Both lines become the last one, and the columns keep the order. -/
theorem order_kept_unless_swapped_rising :
    Position.ofPosition rising.start ≤ Position.ofPosition rising.stop ∧
    (Range.ofRange rising).start ≤ (Range.ofRange rising).stop ∧
    ((endEdits rising).map TextEdit.ofTextEdit).Pairwise fun e f =>
      e.range.start ≤ f.range.start := by
  obtain ⟨hpositions, hranges, -, -, hedits⟩ := order_kept_unless_swapped
  have hkept : ¬ Swapped rising.start rising.stop := by decide
  refine ⟨(hpositions _ _ (by decide)).mpr hkept, (hranges _ (by decide)).mpr hkept, ?_⟩
  exact (hedits _ (by decide)).mpr (by decide)

/-- Neither positions nor ranges nor lists of edits keep their order always. -/
theorem order_lost_falling :
    falling.start ≤ falling.stop ∧
    ¬ Position.ofPosition falling.start ≤ Position.ofPosition falling.stop ∧
    falling.isInverted = false ∧
    ¬ (Range.ofRange falling).start ≤ (Range.ofRange falling).stop ∧
    ((endEdits falling).Pairwise fun e f => e.range.start ≤ f.range.start) ∧
    ¬ ((endEdits falling).map TextEdit.ofTextEdit).Pairwise
      fun e f => e.range.start ≤ f.range.start := by
  decide

end GroovyIndex.Lsp
