import Mathlib.Data.List.Perm.Subperm
import GroovyIndex.Proofs.IndexStructure
import GroovyIndex.Proofs.Innermost
import GroovyIndex.Proofs.Tightness

/-!
# Position look-up in any tree

Position look-up as a loop over the index of any tree, however its ranges overlap or are missing:
it goes on to the tightest placed child around the position (`stepDown?`) until there is none
(`descend`). Each round goes deeper, so the depth bounds the rounds. `Reached` holds of every node
passed.
-/

namespace GroovyIndex

namespace Entry

/-- The place of a node; a node without a place has an empty one. -/
def place (e : Entry) : Range := e.range.getD (.ofCorners 0 0 0 0)

/-- The place of a node is strictly around that of another. -/
def StrictlyAround (a b : Entry) : Prop :=
  ∃ r ∈ a.range, ∃ s ∈ b.range, r.containsRange s = true ∧ r ≠ s

/-- A node strictly around another one is not as tight. -/
theorem StrictlyAround.tighter {a b : Entry} (h : a.StrictlyAround b)
    (hup : ∀ s ∈ b.range, s.start ≤ s.stop) : b.place.Tighter a.place := by
  obtain ⟨r, hr, s, hs, hcontains, hne⟩ := h
  have htighter := Range.tighter_of_containsRange hcontains hne (hup s hs)
  rwa [place, place, hr, hs]

end Entry

namespace Index

/-! ### The loop -/

/-- The nodes with a place right below a node, collected child by child; a child without a place is
looked through. The depth is bounded. -/
def placedBelow (idx : Index) : Nat → NodeId → List Entry
  | 0, _ => []
  | rounds + 1, id =>
    (idx.children id).flatMap fun c => if c.range.isSome then [c] else idx.placedBelow rounds c.id

/-- One round of the loop: the tightest placed child around the position. -/
def stepDown? (idx : Index) (pos : Position) (e : Entry) : Option Entry :=
  tightest? Entry.place ((idx.placedChildren e).filter (·.contains pos))

/-- The loop from a node on, for at most so many rounds. -/
def descend (idx : Index) (pos : Position) : Nat → Entry → Entry
  | 0, e => e
  | rounds + 1, e =>
    match idx.stepDown? pos e with
    | some c => idx.descend pos rounds c
    | none => e

variable {idx : Index} {pos : Position}

/-! ### Placed nodes above a node -/

/-- What follows a node on the way up is what stands above it. -/
private theorem ancestors_suffix (hd : idx.Distinct) {e p : Entry} {below above : List Entry}
    (he : e ∈ idx.entries) (h : idx.ancestors e.id = below ++ p :: above) :
    above = idx.ancestors p.id := by
  refine induction_down (motive := fun e => ∀ below, idx.ancestors e.id = below ++ p :: above →
    above = idx.ancestors p.id) ?_ ?_ he below h
  · intro below h
    simp [ancestors_root hd] at h
  · intro q e hq ih below h
    rw [hq.ancestors_eq hd] at h
    cases below with
    | nil =>
      obtain ⟨rfl, rfl⟩ := List.cons.inj h
      rfl
    | cons first rest => exact ih rest (List.cons.inj h).2

/-- Above the placed parent of a node stand all placed nodes above the node but that parent. -/
theorem mem_ancestors_placedParent (hd : idx.Distinct) {c a : Entry} (hc : c ∈ idx.entries)
    (ha : a ∈ idx.ancestors c.id) (hsome : a.range.isSome = true) :
    a = idx.placedParent c ∨ a ∈ idx.ancestors (idx.placedParent c).id := by
  unfold placedParent
  cases hf : (idx.ancestors c.id).find? (·.range.isSome) with
  | none =>
    have hnot := List.find?_eq_none.mp hf a ha
    exact absurd hsome hnot
  | some p =>
    obtain ⟨-, below, above, heq, hbelow⟩ := List.find?_eq_some_iff_append.mp hf
    have habove := ancestors_suffix hd hc heq
    rw [heq] at ha
    rcases List.mem_append.mp ha with ha | ha
    · have hnot := hbelow a ha
      simp [hsome] at hnot
    · rw [Option.getD_some, ← habove]
      exact List.mem_cons.mp ha

theorem placedParent_mem_ancestors (hd : idx.Distinct) {c : Entry} (hc : c ∈ idx.entries)
    (hne : c ≠ idx.root) : idx.placedParent c ∈ idx.ancestors c.id := by
  unfold placedParent
  cases hf : (idx.ancestors c.id).find? (·.range.isSome) with
  | none => exact List.mem_of_getLast? (getLast?_ancestors hd hc hne)
  | some p => exact List.mem_of_find?_eq_some hf

theorem placedParent_eq_of_mem {p c : Entry} (h : c ∈ idx.placedChildren p) :
    c ≠ idx.root ∧ idx.placedParent c = p := by
  obtain ⟨-, hcond⟩ := List.mem_filter.mp h
  exact ⟨(of_decide_eq_true hcond).1, (of_decide_eq_true hcond).2.2⟩

/-- A placed child is deeper. -/
theorem depth_lt_of_mem_placedChildren (hd : idx.Distinct) {p c : Entry}
    (h : c ∈ idx.placedChildren p) : p.depth < c.depth := by
  obtain ⟨hne, rfl⟩ := placedParent_eq_of_mem h
  have hc := (mem_placedChildren h).1
  exact depth_lt_of_mem_ancestors hd hc (placedParent_mem_ancestors hd hc hne)

/-! ### Placed children and rows -/

/-- A placed row between a node and its placed parent is the row of the node itself. -/
private theorem eq_of_mem_rows_of_placedParent (hd : idx.Distinct) {q q' path : List NodeId}
    {p k n : Node} (hp : IsBase idx q p)
    (hk : (q', k) ∈ Node.forestPlacedRows (p.id :: q) p.children) (hn : (path, n) ∈ k.rows q')
    (hparent : idx.placedParent (n.entry path) = p.entry q) : (path, n) = (q', k) := by
  have hkrow := (Node.forestPlacedRows_sublist _ _).subset hk
  have hkmem := (Node.forestRows_sublist_of_mem hp.1).subset hkrow
  have hnmem := (Node.rows_sublist_of_mem hkmem).subset hn
  rcases eq_or_isAncestor_of_mem_rows hd hnmem hn with he | habove
  · exact (row_eq_of_id_eq hd hkmem hnmem (congrArg Entry.id he)).symm
  · -- Otherwise the row would be a placed node above, nearer than the placed parent.
    obtain ⟨a, ha, hid⟩ := List.any_eq_true.mp habove
    have hae : a = k.entry q' :=
      eq_of_id_eq hd (mem_of_mem_ancestors ha) (entry_mem_of_row hkmem) (beq_iff_eq.mp hid)
    subst hae
    have hdepth : (p.entry q).depth < (k.entry q').depth := by
      obtain ⟨between, rfl⟩ := Node.path_of_mem_forestRows hkrow
      simp only [Entry.depth, Node.entry, List.length_append, List.length_cons]
      omega
    have hcases := mem_ancestors_placedParent hd (entry_mem_of_row hnmem) ha
      (Node.isSome_range_of_mem hk)
    rw [hparent] at hcases
    rcases hcases with he | hmem
    · rw [he] at hdepth
      exact absurd hdepth (Nat.lt_irrefl _)
    · have hlt := depth_lt_of_mem_ancestors hd (entry_mem_of_row hp.1) hmem
      exact absurd hlt (Nat.lt_asymm hdepth)

/-- A node lies below its placed parent. -/
private theorem mem_forestRows_of_placedParent (hd : idx.Distinct) {q path : List NodeId}
    {p n : Node} (hp : IsBase idx q p) (hn : (path, n) ∈ Node.forestRows [] [idx.tree])
    (hne : n.entry path ≠ idx.root) (hparent : idx.placedParent (n.entry path) = p.entry q) :
    (path, n) ∈ Node.forestRows (p.id :: q) p.children := by
  have habove := placedParent_mem_ancestors hd (entry_mem_of_row hn) hne
  rw [hparent] at habove
  apply mem_forestRows_of_isAncestor hd hp.1 hn
  exact List.any_eq_true.mpr ⟨_, habove, beq_self_eq_true _⟩

/-- The placed children of a node are its placed rows, in the same order. -/
theorem placedChildren_eq (hd : idx.Distinct) {q : List NodeId} {p : Node} (hp : IsBase idx q p) :
    idx.placedChildren (p.entry q) =
      (Node.forestPlacedRows (p.id :: q) p.children).map fun row => row.2.entry row.1 := by
  have hnodup : (idx.placedChildren (p.entry q)).Nodup :=
    (List.Nodup.of_map _ hd).filter _
  have hsubset : idx.placedChildren (p.entry q) ⊆
      (Node.forestPlacedRows (p.id :: q) p.children).map fun row => row.2.entry row.1 := by
    intro e he
    obtain ⟨hmem, hsome⟩ := mem_placedChildren he
    obtain ⟨hne, hparent⟩ := placedParent_eq_of_mem he
    obtain ⟨path, n, hn, rfl⟩ := exists_row_of_mem hmem
    have hbelow := mem_forestRows_of_placedParent hd hp hn hne hparent
    obtain ⟨q', k, hk, hrow⟩ := Node.exists_placedRow_of_mem hbelow hsome
    cases eq_of_mem_rows_of_placedParent hd hp hk hrow hparent
    exact List.mem_map.mpr ⟨(path, n), hk, rfl⟩
  have hlength := (hnodup.subperm hsubset).length_le
  exact ((placedRows_sublist hd hp).eq_of_length_le hlength).symm

/-! ### The recursion ends -/

private theorem forestPlacedRows_eq_flatMap (above : List NodeId) (f : Forest) :
    Node.forestPlacedRows above f = f.flatMap (Node.placedRows above) := by
  induction f with
  | nil => rw [Node.forestPlacedRows, List.flatMap_nil]
  | cons n rest ih => rw [Node.forestPlacedRows, List.flatMap_cons, ih]

/-- The collecting is over before the bound if that is beyond the greatest depth. -/
private theorem placedBelow_row (hd : idx.Distinct) {rounds : Nat} {q : List NodeId} {p : Node}
    (hp : (q, p) ∈ Node.forestRows [] [idx.tree]) (h : idx.maxDepth < q.length + rounds) :
    idx.placedBelow rounds p.id =
      (Node.forestPlacedRows (p.id :: q) p.children).map fun row => row.2.entry row.1 := by
  induction rounds generalizing q p with
  | zero =>
    have hdepth : q.length ≤ idx.maxDepth := depth_le_maxDepth (entry_mem_of_row hp)
    omega
  | succ rounds ih =>
    rw [placedBelow, children_of_row hd hp, List.flatMap_map, forestPlacedRows_eq_flatMap,
      List.map_flatMap]
    apply List.flatMap_congr
    intro c hc
    have hrow := Node.child_mem_forestRows hp hc
    change (if c.range.isSome then [c.entry (p.id :: q)] else idx.placedBelow rounds c.id) = _
    cases hr : c.range with
    | some r => simp [Node.placedRows_of_range hr]
    | none =>
      rw [Node.placedRows_of_no_range hr]
      exact ih hrow (by rw [List.length_cons]; omega)

/-- One round more than the greatest depth is enough to collect all placed children. -/
theorem placedBelow_eq (hd : idx.Distinct) {e : Entry} (he : e ∈ idx.entries)
    (hbase : e = idx.root ∨ e.range.isSome = true) {rounds : Nat} (h : idx.maxDepth < rounds) :
    idx.placedBelow rounds e.id = idx.placedChildren e := by
  obtain ⟨q, p, hrow, rfl⟩ := exists_row_of_mem he
  rw [placedChildren_eq hd ⟨hrow, hbase⟩]
  exact placedBelow_row hd hrow (by omega)

/-! ### The loop ends -/

/-- A step leads to a placed child around the position, and no placed child around the
position is tighter. -/
theorem stepDown?_eq_some {e c : Entry} (h : idx.stepDown? pos e = some c) :
    c ∈ idx.placedChildren e ∧ c.contains pos = true ∧
      ∀ x ∈ idx.placedChildren e, x.contains pos = true → ¬ x.place.Tighter c.place := by
  obtain ⟨hmem, hleast⟩ := tightest?_eq_some h
  obtain ⟨hchild, hc⟩ := List.mem_filter.mp hmem
  exact ⟨hchild, hc, fun x hx hxc => hleast x (List.mem_filter.mpr ⟨hx, hxc⟩)⟩

/-- Where no step can be made, no placed child is around the position. -/
theorem stepDown?_eq_none {e : Entry} (h : idx.stepDown? pos e = none) :
    ∀ c ∈ idx.placedChildren e, c.contains pos = false := by
  intro c hc
  have hnot := List.filter_eq_nil_iff.mp (tightest?_eq_none_iff.mp h) c hc
  simpa using hnot

/-- From any node the loop is over after as many rounds as the index is deep. -/
theorem stepDown?_descend (hd : idx.Distinct) {rounds : Nat} {e : Entry}
    (h : idx.maxDepth ≤ e.depth + rounds) :
    idx.stepDown? pos (idx.descend pos rounds e) = none := by
  induction rounds generalizing e with
  | zero =>
    rw [descend]
    cases hs : idx.stepDown? pos e with
    | none => rfl
    | some c =>
      have hchild := (stepDown?_eq_some hs).1
      have hlt := depth_lt_of_mem_placedChildren hd hchild
      have hle := depth_le_maxDepth (mem_placedChildren hchild).1
      omega
  | succ rounds ih =>
    rw [descend]
    cases hs : idx.stepDown? pos e with
    | none => exact hs
    | some c =>
      have hlt := depth_lt_of_mem_placedChildren hd (stepDown?_eq_some hs).1
      exact ih (by omega)

/-! ### The loop finds the node -/

/-- The placed rows around the position. -/
private def rowsAround (pos : Position) (above : List NodeId) (f : Forest) :
    List (List NodeId × Node) :=
  (Node.forestPlacedRows above f).filter fun row => (row.2.entry row.1).contains pos

/-- The find that a row stands for: its place, and where the way down from it ends. -/
private def findFrom (pos : Position) (row : List NodeId × Node) : Range × Node :=
  ((row.2.entry row.1).place, row.2.innermost pos)

/-- The placed nodes around the position are those of the rows. -/
private theorem placedAround_eq (pos : Position) (above : List NodeId) (f : Forest) :
    Node.placedAround pos f =
      (rowsAround pos above f).map fun row => ((row.2.entry row.1).place, row.2) := by
  have hplaced : Node.forestPlaced f = (Node.forestPlacedRows above f).map fun row =>
      ((row.2.entry row.1).place, row.2) := by
    rw [Node.forestPlaced_eq above, ← List.filterMap_eq_map]
    apply List.filterMap_congr
    intro row hrow
    obtain ⟨r, hr⟩ := Option.isSome_iff_exists.mp (Node.isSome_range_of_mem hrow)
    simp [Entry.place, Node.entry, hr]
  rw [Node.placedAround, hplaced, List.filter_map, rowsAround]
  congr 1
  apply List.filter_congr
  intro row hrow
  obtain ⟨r, hr⟩ := Option.isSome_iff_exists.mp (Node.isSome_range_of_mem hrow)
  simp [Entry.place, Entry.contains, Node.entry, hr]

/-- A find in a forest is made from its tightest placed row around the position. -/
private theorem forestFind_eq (pos : Position) (above : List NodeId) (f : Forest) :
    Node.forestFind pos f =
      (tightest? (fun row => (row.2.entry row.1).place) (rowsAround pos above f)).map
        (findFrom pos) := by
  rw [Node.forestFind_eq_tightest?, placedAround_eq pos above, tightest?_map, Option.map_map]
  rfl

/-- A round of the loop at a row: the way down goes on through the same child, or ends. -/
private theorem stepDown?_row (hd : idx.Distinct) {q : List NodeId} {p : Node}
    (hp : IsBase idx q p) :
    idx.stepDown? pos (p.entry q) = none ∧ p.innermost pos = p ∨
      ∃ path m, (path, m) ∈ Node.forestPlacedRows (p.id :: q) p.children ∧
        idx.stepDown? pos (p.entry q) = some (m.entry path) ∧
        p.innermost pos = m.innermost pos := by
  have hstep : idx.stepDown? pos (p.entry q) =
      (tightest? (fun row => (row.2.entry row.1).place)
        (rowsAround pos (p.id :: q) p.children)).map fun row => row.2.entry row.1 := by
    rw [stepDown?, placedChildren_eq hd hp, List.filter_map]
    exact tightest?_map _ _ _
  have hfind := forestFind_eq pos (p.id :: q) p.children
  rw [Node.innermost, hfind, hstep]
  cases ht : tightest? (fun row => (row.2.entry row.1).place)
      (rowsAround pos (p.id :: q) p.children) with
  | none => exact Or.inl ⟨rfl, rfl⟩
  | some row =>
    have hmem := (tightest?_eq_some ht).1
    exact Or.inr ⟨row.1, row.2, (List.mem_filter.mp hmem).1, rfl, rfl⟩

/-- The loop ends where the way down ends. -/
private theorem descend_row (hd : idx.Distinct) {rounds : Nat} {q : List NodeId} {p : Node}
    (hp : IsBase idx q p) (h : idx.maxDepth ≤ q.length + rounds) :
    ∃ path, (path, p.innermost pos) ∈ p.rows q ∧
      idx.descend pos rounds (p.entry q) = (p.innermost pos).entry path := by
  induction rounds generalizing q p with
  | zero =>
    have hend : idx.stepDown? pos (idx.descend pos 0 (p.entry q)) = none := stepDown?_descend hd h
    rw [descend] at hend
    rcases stepDown?_row hd hp with ⟨-, hin⟩ | ⟨path, m, -, hstep, -⟩
    · rw [hin, Node.rows_eq]
      exact ⟨q, List.mem_cons_self, rfl⟩
    · rw [hend] at hstep
      cases hstep
  | succ rounds ih =>
    rcases stepDown?_row hd hp with ⟨hstep, hin⟩ | ⟨path, m, hm, hstep, hin⟩
    · rw [hin, Node.rows_eq, descend, hstep]
      exact ⟨q, List.mem_cons_self, rfl⟩
    · have hrow := (Node.forestPlacedRows_sublist _ _).subset hm
      have hmem := (Node.forestRows_sublist_of_mem hp.1).subset hrow
      have hlength : q.length + 1 ≤ path.length := by
        obtain ⟨between, rfl⟩ := Node.path_of_mem_forestRows hrow
        simp
      obtain ⟨path', hpath', heq⟩ :=
        ih ⟨hmem, Or.inr (Node.isSome_range_of_mem hm)⟩ (by omega)
      rw [descend, hstep, hin, Node.rows_eq]
      exact ⟨path', List.mem_cons_of_mem _ ((Node.rows_sublist_of_mem hrow).subset hpath'), heq⟩

/-- What position look-up finds is where the loop ends that starts from one of the outermost nodes
around the position. -/
theorem exists_descend_of_entryAt? (hd : idx.Distinct) {r : Entry}
    (h : idx.entryAt? pos = some r) :
    ∃ top ∈ idx.placedChildren idx.root, top.contains pos = true ∧
      ∀ rounds, idx.maxDepth ≤ rounds → idx.descend pos rounds top = r := by
  obtain ⟨x, hx, -⟩ := Option.bind_eq_some_iff.mp h
  obtain ⟨path, hrow, hat⟩ := entryAt?_of_locate? hd hx
  rw [hat] at h
  cases h
  obtain ⟨range, top, htop, hc, rfl⟩ := Node.locate?_eq_some hx
  obtain ⟨hrange, q, hq⟩ := (Node.mem_forestPlaced_iff [idx.tree.id]).mp htop
  have hbelow := (Node.forestRows_sublist_of_mem (isBase_root idx).1).subset
  have htopRow := hbelow ((Node.forestPlacedRows_sublist _ _).subset hq)
  have hbase : IsBase idx q top := ⟨htopRow, Or.inr (Node.isSome_range_of_mem hq)⟩
  refine ⟨top.entry q, ?_, ?_, ?_⟩
  · change top.entry q ∈ idx.placedChildren (idx.tree.entry [])
    rw [placedChildren_eq hd (isBase_root idx)]
    exact List.mem_map.mpr ⟨(q, top), hq, rfl⟩
  · exact Entry.contains_iff.mpr ⟨range, hrange, hc⟩
  · intro rounds hrounds
    have hdepth : idx.maxDepth ≤ q.length + rounds := by omega
    obtain ⟨path', hpath', heq⟩ := @descend_row idx pos hd rounds q top hbase hdepth
    have hrow' := (Node.rows_sublist_of_mem htopRow).subset hpath'
    cases row_eq_of_id_eq hd hrow' (hbelow hrow) rfl
    exact heq

/-! ### What holds on the way down -/

/-- The loop passes the node: it and the placed nodes above are around the position, and below the
outermost level no placed sibling around it is tighter. -/
structure Reached (idx : Index) (pos : Position) (e : Entry) : Prop where
  mem : e ∈ idx.entries
  ne_root : e ≠ idx.root
  contains : e.contains pos = true
  above : ∀ a ∈ idx.ancestors e.id, a ≠ idx.root → a.range.isSome = true → a.contains pos = true
  tightest : ∀ m ∈ e :: idx.ancestors e.id, m ≠ idx.root → m.range.isSome = true →
    idx.placedParent m ≠ idx.root → ∀ x ∈ idx.placedChildren (idx.placedParent m),
      x.contains pos = true → ¬ x.place.Tighter m.place

/-- The loop starts at such a node. -/
theorem Reached.start (hd : idx.Distinct) {top : Entry} (h : top ∈ idx.placedChildren idx.root)
    (hc : top.contains pos = true) : idx.Reached pos top := by
  obtain ⟨hne, hparent⟩ := placedParent_eq_of_mem h
  have hmem := (mem_placedChildren h).1
  have honly : ∀ a ∈ idx.ancestors top.id, a.range.isSome = true → a = idx.root := by
    intro a ha hsome
    rcases mem_ancestors_placedParent hd hmem ha hsome with he | ha
    · rw [he, hparent]
    · rw [hparent, ancestors_root hd] at ha
      cases ha
  refine ⟨hmem, hne, hc, ?_, ?_⟩
  · intro a ha hane hsome
    exact absurd (honly a ha hsome) hane
  · intro m hm hmne hsome hinner
    rcases List.mem_cons.mp hm with rfl | hm
    · exact absurd hparent hinner
    · exact absurd (honly m hm hsome) hmne

/-- A step of the loop leads from such a node to such a node. -/
theorem Reached.step (hd : idx.Distinct) {e c : Entry} (h : idx.Reached pos e)
    (hstep : idx.stepDown? pos e = some c) : idx.Reached pos c := by
  obtain ⟨hchild, hc, hleast⟩ := stepDown?_eq_some hstep
  obtain ⟨hne, hparent⟩ := placedParent_eq_of_mem hchild
  have hmem := (mem_placedChildren hchild).1
  refine ⟨hmem, hne, hc, ?_, ?_⟩
  · intro a ha hane hsome
    rcases mem_ancestors_placedParent hd hmem ha hsome with rfl | ha
    · rw [hparent]
      exact h.contains
    · rw [hparent] at ha
      exact h.above a ha hane hsome
  · intro m hm hmne hsome
    rcases List.mem_cons.mp hm with rfl | hm
    · rw [hparent]
      intro _
      exact hleast
    · -- The levels above the new one are those of the node before.
      have hbefore : m ∈ e :: idx.ancestors e.id := by
        rcases mem_ancestors_placedParent hd hmem hm hsome with rfl | hm
        · rw [hparent]
          exact List.mem_cons_self
        · rw [hparent] at hm
          exact List.mem_cons_of_mem _ hm
      exact h.tightest m hbefore hmne hsome

/-- The loop passes such nodes only. -/
theorem Reached.descend (hd : idx.Distinct) {e : Entry} (h : idx.Reached pos e) (rounds : Nat) :
    idx.Reached pos (idx.descend pos rounds e) := by
  induction rounds generalizing e with
  | zero => exact h
  | succ rounds ih =>
    rw [Index.descend]
    cases hs : idx.stepDown? pos e with
    | none => exact h
    | some c => exact ih (h.step hd hs)

/-- In the index of any tree, look-up ends within the depth, at an upright node around the position
that no placed child continues. -/
theorem entryAt?_safe (root : Node) (pos : Position) :
    (∀ e ∈ (ofTree root).entries, e = (ofTree root).root ∨ e.range.isSome = true →
      ∀ rounds, (ofTree root).maxDepth < rounds →
        (ofTree root).placedBelow rounds e.id = (ofTree root).placedChildren e) ∧
    -- The loop is over after as many rounds as the index is deep.
    (∀ e rounds, (ofTree root).maxDepth ≤ rounds →
      (ofTree root).stepDown? pos ((ofTree root).descend pos rounds e) = none) ∧
    ∀ r, (ofTree root).entryAt? pos = some r →
      (∃ top ∈ (ofTree root).placedChildren (ofTree root).root, top.contains pos = true ∧
        ∀ rounds, (ofTree root).maxDepth ≤ rounds → (ofTree root).descend pos rounds top = r) ∧
      r ≠ (ofTree root).root ∧
      (∃ range ∈ r.range, range.isInverted = false ∧ range.contains pos = true) ∧
      (∀ a ∈ (ofTree root).ancestors r.id, a ≠ (ofTree root).root → a.range.isSome = true →
        a.contains pos = true) ∧
      (∀ c ∈ (ofTree root).placedChildren r, c.contains pos = false) ∧
      -- Below the outermost level no chosen node is strictly around a sibling at the position.
      (∀ m ∈ r :: (ofTree root).ancestors r.id, m ≠ (ofTree root).root → m.range.isSome = true →
        (ofTree root).placedParent m ≠ (ofTree root).root →
        ∀ x ∈ (ofTree root).placedChildren ((ofTree root).placedParent m), x.contains pos = true →
          ¬ m.StrictlyAround x) := by
  have hd := distinct_ofTree root
  have hup := upright_ofTree root
  refine ⟨fun e he hbase rounds h => placedBelow_eq hd he hbase h,
    fun e rounds h => stepDown?_descend hd (by omega), ?_⟩
  intro r hr
  obtain ⟨top, htop, hc, hdescend⟩ := exists_descend_of_entryAt? hd hr
  have hend : (ofTree root).stepDown? pos r = none := by
    rw [← hdescend _ le_rfl]
    exact stepDown?_descend hd (by omega)
  have hreached : (ofTree root).Reached pos r := by
    rw [← hdescend _ le_rfl]
    exact (Reached.start hd htop hc).descend hd _
  refine ⟨⟨top, htop, hc, hdescend⟩, hreached.ne_root, ?_, hreached.above,
    stepDown?_eq_none hend, ?_⟩
  · obtain ⟨range, hrange, hcontains⟩ := Entry.contains_iff.mp hreached.contains
    have hupright := hup r hreached.mem range hrange
    exact ⟨range, hrange, Range.isInverted_eq_false_iff.mpr hupright, hcontains⟩
  · intro m hm hne hsome hinner x hx hxc haround
    have hxmem := (mem_placedChildren hx).1
    exact hreached.tightest m hm hne hsome hinner x hx hxc (haround.tighter (hup x hxmem))

/-- A block with three names: one below a statement with an inverted range, reaching out of the
block, one that overlaps it, and one that repeats an id. -/
private def tangled : Node :=
  ⟨⟨0⟩, .moduleRoot, none,
    [⟨⟨1⟩, .block, some (.ofCorners 0 0 2 0),
      [⟨⟨2⟩, .expressionStatement, some (.ofCorners 1 5 1 0),
        [⟨⟨3⟩, .variableRef "far", some (.ofCorners 0 2 3 0), []⟩]⟩,
       ⟨⟨4⟩, .variableRef "near", some (.ofCorners 0 3 1 1), []⟩,
       ⟨⟨3⟩, .variableRef "again", some (.ofCorners 0 4 0 4), []⟩]⟩]⟩

private def nearName : Entry :=
  ⟨⟨4⟩, .variableRef "near", some (.ofCorners 0 3 1 1), [], [⟨1⟩, ⟨0⟩]⟩

private def farName : Entry :=
  ⟨⟨3⟩, .variableRef "far", some (.ofCorners 0 2 3 0), [], [⟨2⟩, ⟨1⟩, ⟨0⟩]⟩

/-- Of the two names around the position the tighter one is found. -/
theorem entryAt?_safe_tangled :
    (ofTree tangled).entryAt? ⟨0, 4⟩ = some nearName ∧
    farName ∈ (ofTree tangled).placedChildren ((ofTree tangled).placedParent nearName) ∧
    farName.contains ⟨0, 4⟩ = true ∧ ¬ nearName.StrictlyAround farName ∧
    ∃ top ∈ (ofTree tangled).placedChildren (ofTree tangled).root,
      (ofTree tangled).descend ⟨0, 4⟩ 3 top = nearName := by
  have hat : (ofTree tangled).entryAt? ⟨0, 4⟩ = some nearName := rfl
  obtain ⟨-, -, hfound⟩ := entryAt?_safe tangled ⟨0, 4⟩
  obtain ⟨⟨top, htop, -, hdescend⟩, -, -, -, -, htightest⟩ := hfound nearName hat
  refine ⟨hat, by decide, by decide, ?_, top, htop, hdescend 3 (by decide)⟩
  exact htightest nearName List.mem_cons_self (by decide) (by decide) (by decide) farName
    (by decide)
    (by decide)

end Index

end GroovyIndex
