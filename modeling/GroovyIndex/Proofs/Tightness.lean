import GroovyIndex.Proofs.Descent

/-!
# The order of tightness

Of several ranges around a position the tightest is chosen, by extent and then by start. Over
several lines the extent takes no account of the column of the start, so it alone does not tell a
range from what it encloses. Among upright ranges the tightest is the innermost, and only equal
ranges tie.
-/

namespace GroovyIndex

/-! ### Two ranges -/

namespace Range

theorem Tighter.irrefl (r : Range) : ¬ r.Tighter r := by
  simp [Tighter, Extent.lt_def, Position.lt_irrefl]

theorem Tighter.trans {a b c : Range} (hab : a.Tighter b) (hbc : b.Tighter c) : a.Tighter c := by
  simp only [Tighter, Extent.lt_def, Position.lt_def] at *
  rcases hab with hab | ⟨he, hab⟩
  · left
    rcases hbc with hbc | ⟨he', -⟩
    · omega
    · rwa [← he']
  · rcases hbc with hbc | ⟨he', hbc⟩
    · left
      rwa [he]
    · exact Or.inr ⟨he.trans he', by omega⟩

/-- Of two ranges one is tighter, or they have the same extent and start. -/
theorem tighter_cases (a b : Range) :
    a.Tighter b ∨ b.Tighter a ∨ a.extent = b.extent ∧ a.start = b.start := by
  rcases ha : a.extent, hb : b.extent with ⟨⟨m, d⟩, ⟨m', d'⟩⟩
  rcases hstart : a.start, hstart' : b.start with ⟨⟨l, c⟩, ⟨l', c'⟩⟩
  simp only [Tighter, Extent.lt_def, Position.lt_def, ha, hb, hstart, hstart', Extent.mk.injEq,
    Position.mk.injEq]
  omega

/-- Of three ranges the last is not tighter than the first, if none is tighter than the
one before it. -/
theorem not_tighter_trans {a b c : Range} (hba : ¬ b.Tighter a) (hcb : ¬ c.Tighter b) :
    ¬ c.Tighter a := by
  intro hca
  rcases tighter_cases a b with hab | hab | ⟨hextent, hstart⟩
  · exact hcb (hca.trans hab)
  · exact hba hab
  · apply hcb
    rwa [Tighter, ← hextent, ← hstart]

/-- A range inside another one is the tighter one, unless they are the same. -/
theorem tighter_of_containsRange {a b : Range} (h : a.containsRange b = true) (hne : a ≠ b)
    (hb : b.start ≤ b.stop) : b.Tighter a := by
  obtain ⟨⟨l, c⟩, ⟨l', c'⟩⟩ := a
  obtain ⟨⟨m, d⟩, ⟨m', d'⟩⟩ := b
  simp only [containsRange_iff, Position.le_def] at h hb
  by_cases hlines : m' - m < l' - l
  · exact Or.inl (Or.inl hlines)
  · -- Both are on the same lines, so the columns decide.
    obtain ⟨rfl, rfl⟩ : l = m ∧ l' = m' := by omega
    simp only [ne_eq, mk.injEq, Position.mk.injEq, true_and] at hne
    simp only [Tighter, extent, Extent.lt_def, Position.lt_def, Extent.mk.injEq, true_and,
      Nat.lt_irrefl, false_or]
    split
    · omega
    · omega

/-- The extent and the start say where an upright range ends. -/
theorem eq_of_extent_eq {a b : Range} (ha : a.start ≤ a.stop) (hb : b.start ≤ b.stop)
    (hextent : a.extent = b.extent) (hstart : a.start = b.start) : a = b := by
  obtain ⟨⟨l, c⟩, ⟨l', c'⟩⟩ := a
  obtain ⟨⟨m, d⟩, ⟨m', d'⟩⟩ := b
  obtain ⟨rfl, rfl⟩ := Position.mk.inj hstart
  simp only [Position.le_def] at ha hb
  simp only [extent, Extent.mk.injEq] at hextent
  obtain ⟨hlines, hcols⟩ := hextent
  obtain rfl : l' = m' := by omega
  -- On one line the width gives the last column, over several lines the extent names it.
  have hcol : c' = d' := by
    split at hcols
    · omega
    · exact hcols
  rw [hcol]

/-- Of two upright ranges that are not the same one is tighter. -/
theorem tighter_or_tighter {a b : Range} (ha : a.start ≤ a.stop) (hb : b.start ≤ b.stop)
    (hne : a ≠ b) : a.Tighter b ∨ b.Tighter a := by
  rcases tighter_cases a b with h | h | ⟨hextent, hstart⟩
  · exact Or.inl h
  · exact Or.inr h
  · exact absurd (eq_of_extent_eq ha hb hextent hstart) hne

/-- An upright range lies inside another one exactly if both its ends do. -/
theorem containsRange_iff_ends {a b : Range} (hb : b.start ≤ b.stop) :
    a.containsRange b = true ↔ a.contains b.start = true ∧ a.contains b.stop = true := by
  rw [containsRange_iff, contains_iff, contains_iff]
  constructor
  · rintro ⟨hstart, hstop⟩
    exact ⟨⟨hstart, Position.le_trans hb hstop⟩, Position.le_trans hstart hb, hstop⟩
  · rintro ⟨⟨hstart, -⟩, -, hstop⟩
    exact ⟨hstart, hstop⟩

/-- An upright range lies inside another one exactly if all its positions do. -/
theorem containsRange_iff_forall {a b : Range} (hb : b.start ≤ b.stop) :
    a.containsRange b = true ↔ ∀ p, b.contains p = true → a.contains p = true := by
  constructor
  · intro h p hp
    exact contains_of_containsRange h hp
  · intro h
    apply (containsRange_iff_ends hb).mpr
    constructor
    · exact h b.start (contains_iff.mpr ⟨Position.le_refl _, hb⟩)
    · exact h b.stop (contains_iff.mpr ⟨hb, Position.le_refl _⟩)

end Range

/-! ### The tightest of several -/

section Tightest

variable {α β : Type}

/-- Of two finds the tighter one; the first stays when neither is tighter. -/
def tighterOf (range : α → Range) : Option α → Option α → Option α
  | none, other => other
  | some a, none => some a
  | some a, some b => if (range b).Tighter (range a) then some b else some a

/-- The first of the tightest members of a list. -/
def tightest? (range : α → Range) (xs : List α) : Option α :=
  xs.foldr (fun x best => tighterOf range (some x) best) none

theorem tighterOf_assoc (range : α → Range) (a b c : Option α) :
    tighterOf range (tighterOf range a b) c = tighterOf range a (tighterOf range b c) := by
  cases a with
  | none => rfl
  | some a =>
    cases b with
    | none => rfl
    | some b =>
      cases c with
      | none => by_cases hba : (range b).Tighter (range a) <;> simp [tighterOf, hba]
      | some c =>
        by_cases hba : (range b).Tighter (range a)
        · by_cases hcb : (range c).Tighter (range b)
          · simp [tighterOf, hba, hcb, hcb.trans hba]
          · simp [tighterOf, hba, hcb]
        · by_cases hcb : (range c).Tighter (range b)
          · simp [tighterOf, hba, hcb]
          · simp [tighterOf, hba, hcb, Range.not_tighter_trans hba hcb]

theorem tighterOf_map (range : β → Range) (f : α → β) (a b : Option α) :
    tighterOf range (a.map f) (b.map f) = (tighterOf (range ∘ f) a b).map f := by
  cases a with
  | none => rfl
  | some a =>
    cases b with
    | none => rfl
    | some b =>
      simp only [tighterOf, Option.map_some, Function.comp_apply]
      split <;> rfl

theorem tightest?_append (range : α → Range) (xs ys : List α) :
    tightest? range (xs ++ ys) = tighterOf range (tightest? range xs) (tightest? range ys) := by
  induction xs with
  | nil => rfl
  | cons x rest ih =>
    change tighterOf range (some x) (tightest? range (rest ++ ys)) = _
    rw [ih, ← tighterOf_assoc]
    rfl

theorem tightest?_map (range : β → Range) (f : α → β) (xs : List α) :
    tightest? range (xs.map f) = (tightest? (range ∘ f) xs).map f := by
  induction xs with
  | nil => rfl
  | cons x rest ih =>
    change tighterOf range ((some x).map f) (tightest? range (rest.map f)) = _
    rw [ih, tighterOf_map]
    rfl

theorem tightest?_eq_none_iff {range : α → Range} {xs : List α} :
    tightest? range xs = none ↔ xs = [] := by
  cases xs with
  | nil => exact iff_of_true rfl rfl
  | cons x rest =>
    refine iff_of_false ?_ (List.cons_ne_nil x rest)
    change tighterOf range (some x) (tightest? range rest) ≠ none
    cases tightest? range rest with
    | none => exact Option.some_ne_none x
    | some y => simp only [tighterOf]; split <;> exact Option.some_ne_none _

/-- The tightest member is one of the list, and no member is tighter. -/
theorem tightest?_eq_some {range : α → Range} {xs : List α} {x : α}
    (h : tightest? range xs = some x) :
    x ∈ xs ∧ ∀ y ∈ xs, ¬ (range y).Tighter (range x) := by
  induction xs generalizing x with
  | nil => cases h
  | cons first rest ih =>
    change tighterOf range (some first) (tightest? range rest) = some x at h
    cases hrest : tightest? range rest with
    | none =>
      rw [hrest] at h
      cases h
      rw [tightest?_eq_none_iff.mp hrest]
      simp [Range.Tighter.irrefl]
    | some best =>
      obtain ⟨hmem, hleast⟩ := ih hrest
      simp only [hrest, tighterOf] at h
      split at h
      · next hlt =>
        cases h
        refine ⟨List.mem_cons_of_mem _ hmem, ?_⟩
        intro y hy
        rcases List.mem_cons.mp hy with rfl | hy
        · exact fun hlt' => Range.Tighter.irrefl _ (hlt.trans hlt')
        · exact hleast y hy
      · next hlt =>
        cases h
        refine ⟨List.mem_cons_self, ?_⟩
        intro y hy
        rcases List.mem_cons.mp hy with rfl | hy
        · exact Range.Tighter.irrefl _
        · exact Range.not_tighter_trans hlt (hleast y hy)

/-- Among upright members the tightest is tighter than each other one or has its range, and none
lies strictly inside it. -/
theorem tightest?_upright {range : α → Range} {xs : List α} {x y : α}
    (h : tightest? range xs = some x) (hup : ∀ z ∈ xs, (range z).start ≤ (range z).stop)
    (hy : y ∈ xs) :
    ((range x).Tighter (range y) ∨ range x = range y) ∧
      ((range x).containsRange (range y) = true → range x = range y) := by
  obtain ⟨hx, hleast⟩ := tightest?_eq_some h
  by_cases heq : range x = range y
  · exact ⟨Or.inr heq, fun _ => heq⟩
  · have hchoice := Range.tighter_or_tighter (hup x hx) (hup y hy) heq
    refine ⟨Or.inl (hchoice.resolve_right (hleast y hy)), ?_⟩
    intro hinside
    exact absurd (Range.tighter_of_containsRange hinside heq (hup y hy)) (hleast y hy)

end Tightest

/-! ### The choice on the way down -/

namespace Node

theorem tighterFind_eq (a b : Option (Range × Node)) :
    tighterFind a b = tighterOf Prod.fst a b := by
  cases a with
  | none => rfl
  | some a => cases b <;> rfl

/-- The placed nodes of a forest around a position, with their ranges. -/
def placedAround (pos : Position) (f : Forest) : List (Range × Node) :=
  (forestPlaced f).filter (·.1.contains pos)

theorem mem_placedAround {pos : Position} {f : Forest} {c : Range × Node} :
    c ∈ placedAround pos f ↔ c ∈ forestPlaced f ∧ c.1.contains pos = true :=
  List.mem_filter

/-- A find in a forest is made from its tightest placed node around the position. -/
theorem forestFind_eq_tightest? (pos : Position) (f : Forest) :
    forestFind pos f =
      (tightest? Prod.fst (placedAround pos f)).map fun c => (c.1, c.2.innermost pos) := by
  induction f using Forest.induction with
  | nil => rw [forestFind, placedAround, forestPlaced]; rfl
  | cons n rest ihChildren ihRest =>
    have hsplit : placedAround pos (n :: rest) =
        n.placed.filter (·.1.contains pos) ++ placedAround pos rest := by
      rw [placedAround, forestPlaced, List.filter_append, placedAround]
    rw [forestFind, hsplit, tightest?_append, tighterFind_eq, ihRest]
    cases hr : n.range with
    | none =>
      rw [find_of_no_range hr, placed_of_no_range hr, ihChildren]
      exact tighterOf_map Prod.fst _ _ _
    | some r =>
      rw [find_of_range hr, placed_of_range hr, List.filter_cons, List.filter_nil]
      cases hc : r.contains pos with
      | false => exact tighterOf_map Prod.fst _ none _
      | true => exact tighterOf_map Prod.fst (fun c => (c.1, c.2.innermost pos)) (some (r, n)) _

end Node

namespace Range

/-- Among upright ranges tightness is a faithful order of size, and the way down goes through a
tightest one. -/
theorem tightness_faithful :
    (∀ a b : Range, a.isInverted = false → b.isInverted = false →
      (a.containsRange b = true → a ≠ b → b.Tighter a) ∧
      (a.extent = b.extent → a.start = b.start → a = b) ∧
      (a.containsRange b = true ↔ ∀ p, b.contains p = true → a.contains p = true) ∧
      (a.containsRange b = true ↔ a.contains b.start = true ∧ a.contains b.stop = true)) ∧
    ∀ (f : Forest) (pos : Position), (∀ c ∈ Node.forestPlaced f, c.1.isInverted = false) →
      (Node.forestFind pos f = none ↔ Node.placedAround pos f = []) ∧
      ∀ r x, Node.forestFind pos f = some (r, x) →
        (∃ m, (r, m) ∈ Node.placedAround pos f ∧ x = m.innermost pos) ∧
        ∀ c ∈ Node.placedAround pos f,
          (r.Tighter c.1 ∨ r = c.1) ∧ (r.containsRange c.1 = true → r = c.1) := by
  constructor
  · intro a b ha hb
    rw [isInverted_eq_false_iff] at ha hb
    exact ⟨fun h hne => tighter_of_containsRange h hne hb, eq_of_extent_eq ha hb,
      containsRange_iff_forall hb, containsRange_iff_ends hb⟩
  · intro f pos hup
    rw [Node.forestFind_eq_tightest?, Option.map_eq_none_iff, tightest?_eq_none_iff]
    refine ⟨Iff.rfl, ?_⟩
    intro r x hfound
    obtain ⟨⟨r', m⟩, ht, heq⟩ := Option.map_eq_some_iff.mp hfound
    cases heq
    refine ⟨⟨m, (tightest?_eq_some ht).1, rfl⟩, ?_⟩
    intro c hc
    apply tightest?_upright ht _ hc
    intro z hz
    exact isInverted_eq_false_iff.mp (hup z (Node.mem_placedAround.mp hz).1)

/-- A block over three lines. -/
private def block : Range := .ofCorners 0 2 2 4

/-- The end of the block, from the middle of its first line on. -/
private def blockEnd : Range := .ofCorners 0 5 2 4

private def nested : Forest :=
  [⟨⟨1⟩, .block, some block, []⟩, ⟨⟨2⟩, .block, some blockEnd, []⟩]

/-- The block and its end have one extent. The end is found, though the block comes first. -/
theorem tightness_faithful_block :
    block.extent = blockEnd.extent ∧ blockEnd.Tighter block ∧
    block.contains ⟨1, 9⟩ = true ∧ blockEnd.containsRange block = false ∧
    ∃ x, Node.forestFind ⟨1, 0⟩ nested = some (blockEnd, x) ∧
      ∀ c ∈ Node.placedAround ⟨1, 0⟩ nested,
        blockEnd.containsRange c.1 = true → blockEnd = c.1 := by
  obtain ⟨hranges, hfind⟩ := tightness_faithful
  obtain ⟨htighter, -, hpositions, -⟩ := hranges block blockEnd (by decide) (by decide)
  obtain ⟨-, -, -, hends⟩ := hranges blockEnd block (by decide) (by decide)
  obtain ⟨-, hchosen⟩ := hfind nested ⟨1, 0⟩ (by decide)
  refine ⟨rfl, htighter (by decide) (by decide), hpositions.mp (by decide) ⟨1, 9⟩ (by decide),
    ?_, _, rfl, ?_⟩
  · rw [← Bool.not_eq_true, hends]
    decide
  · intro c hc
    exact ((hchosen blockEnd _ rfl).2 c hc).2

end Range

end GroovyIndex
