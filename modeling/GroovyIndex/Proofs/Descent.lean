import GroovyIndex.Index.Locate
import GroovyIndex.Proofs.Tree

/-!
# The way down to a position

Position look-up goes down through placed children: nodes with a place that stand right below when
nodes without one are looked through. For every tree, `forestFind` finds a placed child around the
position exactly if there is one, and `lastStarted?` finds an outermost node around it if the
outermost nodes follow each other.
-/

namespace GroovyIndex.Node

/-! ### Placed rows -/

mutual
/-- The outermost nodes of a tree that have a place, with the ids above them. -/
def placedRows (above : List NodeId) : Node → List (List NodeId × Node)
  | n@⟨_, _, some _, _⟩ => [(above, n)]
  | ⟨id, _, none, children⟩ => forestPlacedRows (id :: above) children
/-- The outermost nodes of a forest that have a place, with the ids above them. -/
def forestPlacedRows (above : List NodeId) : Forest → List (List NodeId × Node)
  | [] => []
  | n :: rest => n.placedRows above ++ forestPlacedRows above rest
end

theorem placedRows_of_range {n : Node} {r : Range} (h : n.range = some r)
    (above : List NodeId) : n.placedRows above = [(above, n)] := by
  obtain ⟨id, kind, range, children⟩ := n
  subst h
  rw [placedRows]

theorem placedRows_of_no_range {n : Node} (h : n.range = none) (above : List NodeId) :
    n.placedRows above = forestPlacedRows (n.id :: above) n.children := by
  obtain ⟨id, kind, range, children⟩ := n
  subst h
  rw [placedRows]

theorem placed_of_range {n : Node} {r : Range} (h : n.range = some r) :
    n.placed = [(r, n)] := by
  obtain ⟨id, kind, range, children⟩ := n
  subst h
  rw [placed]

theorem placed_of_no_range {n : Node} (h : n.range = none) :
    n.placed = forestPlaced n.children := by
  obtain ⟨id, kind, range, children⟩ := n
  subst h
  rw [placed]

/-- The placed nodes of a forest are those of its placed rows, with their ranges. -/
theorem forestPlaced_eq (above : List NodeId) (f : Forest) :
    forestPlaced f =
      (forestPlacedRows above f).filterMap fun row => row.2.range.map fun r => (r, row.2) := by
  induction f using Forest.induction generalizing above with
  | nil => rw [forestPlaced, forestPlacedRows, List.filterMap_nil]
  | cons n rest ihChildren ihRest =>
    rw [forestPlaced, forestPlacedRows, List.filterMap_append, ← ihRest]
    congr 1
    cases hr : n.range with
    | none => rw [placed_of_no_range hr, placedRows_of_no_range hr, ← ihChildren]
    | some r => simp [placed_of_range hr, placedRows_of_range hr, hr]

/-- A placed row is a placed node with its range. -/
theorem mem_forestPlaced_iff (above : List NodeId) {f : Forest} {r : Range} {m : Node} :
    (r, m) ∈ forestPlaced f ↔
      m.range = some r ∧ ∃ path, (path, m) ∈ forestPlacedRows above f := by
  rw [forestPlaced_eq above]
  constructor
  · intro h
    obtain ⟨⟨path, k⟩, hrow, hk⟩ := List.mem_filterMap.mp h
    obtain ⟨r', hr', he⟩ := Option.map_eq_some_iff.mp hk
    cases he
    exact ⟨hr', path, hrow⟩
  · rintro ⟨hr, path, hrow⟩
    exact List.mem_filterMap.mpr ⟨(path, m), hrow, by simp [hr]⟩

/-- The placed rows of a forest are some of its rows, in the same order. -/
theorem forestPlacedRows_sublist (above : List NodeId) (f : Forest) :
    (forestPlacedRows above f).Sublist (forestRows above f) := by
  induction f using Forest.induction generalizing above with
  | nil =>
    rw [forestPlacedRows]
    exact List.nil_sublist _
  | cons n rest ihChildren ihRest =>
    rw [forestPlacedRows, forestRows_cons]
    cases hr : n.range with
    | none =>
      rw [placedRows_of_no_range hr]
      exact ((ihChildren _).append (ihRest _)).cons _
    | some r =>
      rw [placedRows_of_range hr]
      exact ((ihRest above).trans (List.sublist_append_right _ _)).cons_cons _

/-- The rows with a place are those at and below the placed rows, one placed row after the other. -/
theorem filter_forestRows (above : List NodeId) (f : Forest) :
    (forestRows above f).filter (·.2.range.isSome) =
      (forestPlacedRows above f).flatMap fun row =>
        (row.2.rows row.1).filter (·.2.range.isSome) := by
  induction f using Forest.induction generalizing above with
  | nil => rw [forestRows_nil, forestPlacedRows, List.filter_nil, List.flatMap_nil]
  | cons n rest ihChildren ihRest =>
    rw [forestPlacedRows, List.flatMap_append, ← ihRest, forestRows, List.filter_append]
    congr 1
    cases hr : n.range with
    | none =>
      rw [placedRows_of_no_range hr, ← ihChildren, rows_eq]
      exact List.filter_cons_of_neg (by simp [hr])
    | some r => simp [placedRows_of_range hr]

/-- Placed rows have a place. -/
theorem isSome_range_of_mem {above path : List NodeId} {f : Forest} {m : Node}
    (h : (path, m) ∈ forestPlacedRows above f) : m.range.isSome = true := by
  induction f using Forest.induction generalizing above with
  | nil => simp [forestPlacedRows] at h
  | cons n rest ihChildren ihRest =>
    rw [forestPlacedRows] at h
    rcases List.mem_append.mp h with h | h
    · cases hr : n.range with
      | none =>
        rw [placedRows_of_no_range hr] at h
        exact ihChildren h
      | some r =>
        rw [placedRows_of_range hr, List.mem_singleton] at h
        cases h
        rw [hr]
        rfl
    · exact ihRest h

/-- Between a placed row and the forest stand only nodes without a place. -/
theorem path_of_mem_forestPlacedRows {above path : List NodeId} {f : Forest} {m : Node}
    (h : (path, m) ∈ forestPlacedRows above f) :
    ∃ between, path = between ++ above ∧
      ∀ id ∈ between, ∃ q k, (q, k) ∈ forestRows above f ∧ k.id = id ∧ k.range = none := by
  induction f using Forest.induction generalizing above with
  | nil => simp [forestPlacedRows] at h
  | cons n rest ihChildren ihRest =>
    rw [forestPlacedRows] at h
    rw [forestRows_cons]
    rcases List.mem_append.mp h with h | h
    · cases hr : n.range with
      | none =>
        rw [placedRows_of_no_range hr] at h
        obtain ⟨between, rfl, hbetween⟩ := ihChildren h
        refine ⟨between ++ [n.id], by simp, ?_⟩
        intro id hid
        rcases List.mem_append.mp hid with hid | hid
        · obtain ⟨q, k, hk, hrest⟩ := hbetween id hid
          exact ⟨q, k, List.mem_cons_of_mem _ (List.mem_append_left _ hk), hrest⟩
        · rw [List.mem_singleton.mp hid]
          exact ⟨above, n, List.mem_cons_self, rfl, hr⟩
      | some r =>
        rw [placedRows_of_range hr, List.mem_singleton] at h
        cases h
        exact ⟨[], rfl, fun id hid => absurd hid List.not_mem_nil⟩
    · obtain ⟨between, rfl, hbetween⟩ := ihRest h
      refine ⟨between, rfl, ?_⟩
      intro id hid
      obtain ⟨q, k, hk, hrest⟩ := hbetween id hid
      exact ⟨q, k, List.mem_cons_of_mem _ (List.mem_append_right _ hk), hrest⟩

/-- Every row with a place is at or below a placed row. -/
theorem exists_placedRow_of_mem {above path : List NodeId} {f : Forest} {m : Node}
    (h : (path, m) ∈ forestRows above f) (hm : m.range.isSome = true) :
    ∃ q p, (q, p) ∈ forestPlacedRows above f ∧ (path, m) ∈ p.rows q := by
  induction f using Forest.induction generalizing above with
  | nil => simp at h
  | cons n rest ihChildren ihRest =>
    rw [forestRows, List.mem_append] at h
    rw [forestPlacedRows]
    rcases h with h | h
    · cases hr : n.range with
      | some r =>
        rw [placedRows_of_range hr]
        exact ⟨above, n, List.mem_cons_self, h⟩
      | none =>
        rw [placedRows_of_no_range hr]
        rw [rows_eq] at h
        rcases List.mem_cons.mp h with he | h
        · cases he
          simp [hr] at hm
        · obtain ⟨q, p, hp, hrow⟩ := ihChildren h
          exact ⟨q, p, List.mem_append_left _ hp, hrow⟩
    · obtain ⟨q, p, hp, hrow⟩ := ihRest h
      exact ⟨q, p, List.mem_append_right _ hp, hrow⟩

/-! ### Steps down -/

private theorem size_le_of_mem {f : Forest} {r : Range} {m : Node} (h : (r, m) ∈ forestPlaced f) :
    m.size ≤ forestSize f := by
  induction f using Forest.induction with
  | nil => simp [forestPlaced] at h
  | cons n rest ihChildren ihRest =>
    have hsize : n.size = forestSize n.children + 1 := by cases n; rw [size]
    rw [forestPlaced] at h
    rw [forestSize]
    rcases List.mem_append.mp h with h | h
    · cases hr : n.range with
      | none =>
        rw [placed_of_no_range hr] at h
        have := ihChildren h
        omega
      | some r' =>
        rw [placed_of_range hr, List.mem_singleton] at h
        cases h
        omega
    · have := ihRest h
      omega

/-- Induction upwards along placed children: a property that a node has if its placed children have
it holds of every node. -/
theorem placedInduction {motive : Node → Prop}
    (step : ∀ n : Node, (∀ r m, (r, m) ∈ forestPlaced n.children → motive m) → motive n)
    (n : Node) : motive n := by
  have all (k : Nat) : ∀ n : Node, n.size = k → motive n := by
    induction k using Nat.strongRecOn with
    | ind k ih =>
      intro n hn
      apply step
      intro r m hm
      have hle := size_le_of_mem hm
      have hsize : n.size = forestSize n.children + 1 := by cases n; rw [size]
      exact ih m.size (by omega) m rfl
  exact all n.size n rfl

/-- A step down leads to a placed node around the position, and on to where that one leads. -/
def Steps (pos : Position) (f : Forest) (found : Option (Range × Node)) : Prop :=
  match found with
  | none => ∀ r m, (r, m) ∈ forestPlaced f → r.contains pos = false
  | some (r, x) => ∃ m, (r, m) ∈ forestPlaced f ∧ r.contains pos = true ∧ x = m.innermost pos

private theorem steps_tighterFind {pos : Position} {n : Node} {rest : Forest}
    {a b : Option (Range × Node)}
    (ha : ∀ r x, a = some (r, x) → ∃ m, (r, m) ∈ n.placed ∧ r.contains pos = true ∧
      x = m.innermost pos)
    (hna : a = none → ∀ r m, (r, m) ∈ n.placed → r.contains pos = false)
    (hb : Steps pos rest b) : Steps pos (n :: rest) (tighterFind a b) := by
  have hmem (r : Range) (m : Node) : (r, m) ∈ forestPlaced (n :: rest) ↔
      (r, m) ∈ n.placed ∨ (r, m) ∈ forestPlaced rest := by
    rw [forestPlaced, List.mem_append]
  have left (r : Range) (x : Node) (h : a = some (r, x)) : Steps pos (n :: rest) (some (r, x)) := by
    obtain ⟨m, hm, hr, hx⟩ := ha r x h
    exact ⟨m, (hmem r m).mpr (Or.inl hm), hr, hx⟩
  have right (r : Range) (x : Node) (h : b = some (r, x)) :
      Steps pos (n :: rest) (some (r, x)) := by
    subst h
    obtain ⟨m, hm, hr, hx⟩ := hb
    exact ⟨m, (hmem r m).mpr (Or.inr hm), hr, hx⟩
  cases a with
  | none =>
    cases b with
    | none =>
      intro r m h
      rcases (hmem r m).mp h with h | h
      · exact hna rfl r m h
      · exact hb r m h
    | some found => exact right found.1 found.2 rfl
  | some first =>
    cases b with
    | none => exact left first.1 first.2 rfl
    | some second =>
      simp only [tighterFind]
      split
      · exact right second.1 second.2 rfl
      · exact left first.1 first.2 rfl

/-- Each step finds a placed node around the position, if there is one. -/
theorem steps_forestFind (pos : Position) (f : Forest) : Steps pos f (forestFind pos f) := by
  induction f using Forest.induction with
  | nil =>
    rw [forestFind]
    intro r m h
    simp [forestPlaced] at h
  | cons n rest ihChildren ihRest =>
    rw [forestFind]
    cases hr : n.range with
    | some range =>
      rw [find_of_range hr]
      apply steps_tighterFind _ _ ihRest
      · intro r x h
        split at h
        · next hc =>
          cases h
          exact ⟨n, by rw [placed_of_range hr]; exact List.mem_cons_self, hc, rfl⟩
        · cases h
      · intro h r m hm
        rw [placed_of_range hr, List.mem_singleton] at hm
        cases hm
        simpa using h
    | none =>
      rw [find_of_no_range hr]
      apply steps_tighterFind _ _ ihRest
      · intro r x h
        rw [h] at ihChildren
        rwa [placed_of_no_range hr]
      · intro h r m hm
        rw [h] at ihChildren
        rw [placed_of_no_range hr] at hm
        exact ihChildren r m hm

/-- Where no placed child is around the position, the way down ends. -/
theorem innermost_of_forall {n : Node} {pos : Position}
    (h : ∀ r m, (r, m) ∈ forestPlaced n.children → r.contains pos = false) :
    n.innermost pos = n := by
  have hs := steps_forestFind pos n.children
  rw [innermost]
  cases hf : forestFind pos n.children with
  | none => rfl
  | some found =>
    rw [hf] at hs
    obtain ⟨m, hm, hr, -⟩ := hs
    rw [h _ _ hm] at hr
    cases hr

/-- The way down ends at once, or goes on from a placed child around the position. -/
theorem innermost_cases (n : Node) (pos : Position) :
    (n.innermost pos = n ∧ ∀ r m, (r, m) ∈ forestPlaced n.children → r.contains pos = false) ∨
      ∃ r m, (r, m) ∈ forestPlaced n.children ∧ r.contains pos = true ∧
        n.innermost pos = m.innermost pos := by
  have hs := steps_forestFind pos n.children
  cases hf : forestFind pos n.children with
  | none =>
    rw [hf] at hs
    exact Or.inl ⟨innermost_of_forall hs, hs⟩
  | some found =>
    rw [hf] at hs
    obtain ⟨m, hm, hr, hx⟩ := hs
    refine Or.inr ⟨found.1, m, hm, hr, ?_⟩
    rw [innermost, hf, ← hx]
    rfl

/-! ### Where the way down leads -/

/-- The way down from a node around the position ends at a node around the position. -/
theorem innermost_contains {n : Node} {pos : Position} {r : Range} (hr : n.range = some r)
    (hc : r.contains pos = true) :
    ∃ r', (n.innermost pos).range = some r' ∧ r'.contains pos = true := by
  induction n using placedInduction generalizing r with
  | step n ih =>
    rcases n.innermost_cases pos with ⟨he, -⟩ | ⟨r', m, hm, hc', he⟩
    · rw [he]
      exact ⟨r, hr, hc⟩
    · rw [he]
      exact ih r' m hm ((mem_forestPlaced_iff []).mp hm).1 hc'

/-- The way down from a node stays at or below it. -/
theorem innermost_mem_rows (n : Node) (pos : Position) (above : List NodeId) :
    ∃ path, (path, n.innermost pos) ∈ n.rows above := by
  induction n using placedInduction generalizing above with
  | step n ih =>
    rw [rows_eq]
    rcases n.innermost_cases pos with ⟨he, -⟩ | ⟨r, m, hm, -, he⟩
    · rw [he]
      exact ⟨above, List.mem_cons_self⟩
    · rw [he]
      obtain ⟨-, q, hq⟩ := (mem_forestPlaced_iff (n.id :: above)).mp hm
      obtain ⟨path, hpath⟩ := ih r m hm q
      have hrow := (forestPlacedRows_sublist (n.id :: above) n.children).subset hq
      exact ⟨path, List.mem_cons_of_mem _ ((rows_sublist_of_mem hrow).subset hpath)⟩

/-! ### The outermost node -/

/-- The candidate is one of the nodes, and starts at or before the position. -/
theorem mem_of_lastStarted? {pos : Position} {xs : List (Range × Node)} {x : Range × Node}
    (h : lastStarted? pos xs = some x) : x ∈ xs ∧ x.1.start ≤ pos := by
  induction xs with
  | nil => cases h
  | cons first rest ih =>
    obtain ⟨range, n⟩ := first
    rw [lastStarted?] at h
    split at h
    · next later m hrest =>
      split at h
      · next hcond =>
        cases h
        exact ⟨List.mem_cons_self, hcond.1⟩
      · cases h
        obtain ⟨hmem, hstart⟩ := ih hrest
        exact ⟨List.mem_cons_of_mem _ hmem, hstart⟩
    · split at h
      · next hcond =>
        cases h
        exact ⟨List.mem_cons_self, hcond⟩
      · cases h

/-- Without a candidate every node starts behind the position. -/
theorem not_started_of_lastStarted? {pos : Position} {xs : List (Range × Node)}
    (h : lastStarted? pos xs = none) {x : Range × Node} (hx : x ∈ xs) : ¬ x.1.start ≤ pos := by
  induction xs with
  | nil => cases hx
  | cons first rest ih =>
    obtain ⟨range, n⟩ := first
    rw [lastStarted?] at h
    split at h
    · split at h <;> cases h
    · next hrest =>
      split at h
      · cases h
      · next hcond =>
        rcases List.mem_cons.mp hx with rfl | hx
        · exact hcond
        · exact ih hrest hx

/-- Where a node starts at or before the position there is a candidate, and it starts no earlier. -/
theorem exists_lastStarted? {pos : Position} {xs : List (Range × Node)} {x : Range × Node}
    (hx : x ∈ xs) (hstart : x.1.start ≤ pos) :
    ∃ top, lastStarted? pos xs = some top ∧ x.1.start ≤ top.1.start := by
  induction xs with
  | nil => cases hx
  | cons first rest ih =>
    obtain ⟨range, n⟩ := first
    rw [lastStarted?]
    cases hl : lastStarted? pos rest with
    | none =>
      rcases List.mem_cons.mp hx with rfl | hx
      · exact ⟨(range, n), if_pos hstart, Position.le_refl _⟩
      · exact absurd hstart (not_started_of_lastStarted? hl hx)
    | some top =>
      obtain ⟨later, m⟩ := top
      have hrest : x ∈ rest → x.1.start ≤ later.start := by
        intro hx
        obtain ⟨top, htop, hle⟩ := ih hx
        rw [hl] at htop
        cases htop
        exact hle
      dsimp only
      split
      · next hcond =>
        refine ⟨(range, n), rfl, ?_⟩
        rcases List.mem_cons.mp hx with rfl | hx
        · exact Position.le_refl _
        · exact Position.le_trans (hrest hx) (Position.le_of_lt hcond.2)
      · next hcond =>
        refine ⟨(later, m), rfl, ?_⟩
        rcases List.mem_cons.mp hx with rfl | hx
        · exact Decidable.not_not.mp fun hnot => hcond ⟨hstart, Position.not_le.mp hnot⟩
        · exact hrest hx

/-- Where the nodes follow each other, the candidate is around the position if any of them is. -/
theorem lastStarted?_contains {pos : Position} {xs : List (Range × Node)}
    (hxs : xs.Pairwise fun a b => a.1.stop ≤ b.1.start)
    (hup : ∀ x ∈ xs, x.1.start ≤ x.1.stop) {x : Range × Node} (hx : x ∈ xs)
    (hc : x.1.contains pos = true) :
    ∃ top, lastStarted? pos xs = some top ∧ top.1.contains pos = true := by
  induction xs with
  | nil => cases hx
  | cons first rest ih =>
    obtain ⟨range, n⟩ := first
    obtain ⟨hfirst, hrest⟩ := List.pairwise_cons.mp hxs
    have hupRest : ∀ y ∈ rest, y.1.start ≤ y.1.stop :=
      fun y hy => hup y (List.mem_cons_of_mem _ hy)
    rw [lastStarted?]
    cases hl : lastStarted? pos rest with
    | none =>
      rcases List.mem_cons.mp hx with rfl | hx
      · refine ⟨(range, n), ?_, hc⟩
        simp [(Range.contains_iff.mp hc).1]
      · exact absurd (Range.contains_iff.mp hc).1 (not_started_of_lastStarted? hl hx)
    | some top =>
      obtain ⟨later, m⟩ := top
      obtain ⟨hmem, hstart⟩ := mem_of_lastStarted? hl
      have hafter : range.stop ≤ later.start := hfirst _ hmem
      have hbefore : range.start ≤ later.start :=
        Position.le_trans (hup _ List.mem_cons_self) hafter
      have hnot : ¬ later.start < range.start := fun hlt => Position.not_le.mpr hlt hbefore
      refine ⟨(later, m), by simp [hnot], ?_⟩
      rcases List.mem_cons.mp hx with rfl | hx
      · have hstop : pos ≤ later.stop :=
          Position.le_trans (Position.le_trans (Range.contains_iff.mp hc).2 hafter)
            (hupRest _ hmem)
        exact Range.contains_iff.mpr ⟨hstart, hstop⟩
      · obtain ⟨top, htop, hcontains⟩ := ih hrest hupRest hx
        rw [hl] at htop
        cases htop
        exact hcontains

/-- From a candidate around the position the way down leads to the node that is located. -/
theorem locate?_of_lastStarted? {root top : Node} {pos : Position} {r : Range}
    (h : lastStarted? pos (forestPlaced root.children) = some (r, top))
    (hc : r.contains pos = true) : root.locate? pos = some (top.innermost pos) := by
  simp only [locate?, h]
  exact if_pos hc

/-- A node that is located is reached from one of the outermost nodes around the position. -/
theorem locate?_eq_some {root x : Node} {pos : Position} (h : root.locate? pos = some x) :
    ∃ r top, (r, top) ∈ forestPlaced root.children ∧ r.contains pos = true ∧
      x = top.innermost pos := by
  obtain ⟨⟨r, top⟩, htop, hx⟩ := Option.bind_eq_some_iff.mp h
  simp only at hx
  split at hx
  · next hc =>
    cases hx
    exact ⟨r, top, (mem_of_lastStarted? htop).1, hc, rfl⟩
  · cases hx

end GroovyIndex.Node
