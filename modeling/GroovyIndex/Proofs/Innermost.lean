import Mathlib.Data.List.Chain
import GroovyIndex.Proofs.Descent
import GroovyIndex.Proofs.Index

/-!
# The innermost node at a position

A placed parent is the nearest node above with a place, or else the root. In a document that is
laid out, placed nodes lie inside their placed parents and placed siblings follow each other.
Look-up then finds a node wherever one is around the position, and the innermost one unless
siblings touch there.
-/

namespace GroovyIndex

/-- The first entry ends before the second starts, or where it starts. -/
def Entry.Precedes (a b : Entry) : Prop :=
  ∀ r ∈ a.range, ∀ s ∈ b.range, r.stop ≤ s.start

/-- The first entry lies inside the second. -/
def Entry.Within (a b : Entry) : Prop :=
  ∀ r ∈ a.range, ∀ s ∈ b.range, s.containsRange r = true

instance (a b : Entry) : Decidable (a.Precedes b) :=
  inferInstanceAs (Decidable (∀ r ∈ a.range, ∀ s ∈ b.range, r.stop ≤ s.start))

instance (a b : Entry) : Decidable (a.Within b) :=
  inferInstanceAs (Decidable (∀ r ∈ a.range, ∀ s ∈ b.range, s.containsRange r = true))

/-- Of things that are upright and follow each other, each precedes all later ones, not
only the next. -/
theorem pairwise_of_isChain {α : Type} (range : α → Option Range) {xs : List α}
    (hup : ∀ x ∈ xs, ∃ r ∈ range x, r.start ≤ r.stop)
    (h : xs.IsChain fun a b => ∀ r ∈ range a, ∀ s ∈ range b, r.stop ≤ s.start) :
    xs.Pairwise fun a b => ∀ r ∈ range a, ∀ s ∈ range b, r.stop ≤ s.start := by
  induction xs with
  | nil => exact List.Pairwise.nil
  | cons x rest ih =>
    have hrest := ih (fun y hy => hup y (List.mem_cons_of_mem _ hy)) h.tail
    refine List.pairwise_cons.mpr ⟨?_, hrest⟩
    cases rest with
    | nil =>
      intro y hy
      cases hy
    | cons next rest =>
      have hnext := (List.isChain_cons_cons.mp h).1
      intro y hy r hr s hs
      rcases List.mem_cons.mp hy with rfl | hy
      · exact hnext r hr s hs
      · -- The next one lies between, and it does not end before it starts.
        obtain ⟨t, ht, hle⟩ := hup next (List.mem_cons_of_mem _ List.mem_cons_self)
        have hlater := (List.pairwise_cons.mp hrest).1 y hy t ht s hs
        exact Position.le_trans (hnext r hr t ht) (Position.le_trans hle hlater)

namespace Index

variable (idx : Index)

/-- The nearest node above that has a place, or else the root. -/
def placedParent (e : Entry) : Entry :=
  ((idx.ancestors e.id).find? (·.range.isSome)).getD idx.root

/-- The nodes with a place whose placed parent is the given node, in pre-order. -/
def placedChildren (p : Entry) : List Entry :=
  idx.entries.filter fun e => e ≠ idx.root ∧ e.range.isSome ∧ idx.placedParent e = p

/-- Placed nodes lie inside their placed parents, the root apart. -/
def Nests : Prop :=
  ∀ e ∈ idx.entries, e ≠ idx.root → idx.placedParent e ≠ idx.root → e.Within (idx.placedParent e)

instance : Decidable idx.Nests :=
  inferInstanceAs (Decidable (∀ e ∈ idx.entries, e ≠ idx.root → idx.placedParent e ≠ idx.root →
    e.Within (idx.placedParent e)))

/-- Placed nodes lie inside their placed parents, the root apart, and placed siblings
follow each other. -/
structure LaidOut : Prop where
  within : ∀ e ∈ idx.entries, e ≠ idx.root → idx.placedParent e ≠ idx.root →
    e.Within (idx.placedParent e)
  ordered : ∀ p ∈ idx.entries, p = idx.root ∨ p.range.isSome →
    (idx.placedChildren p).IsChain Entry.Precedes

/-- No placed sibling of the node, or of a placed node above it and below the root, is
around the position. -/
def Uncontested (pos : Position) (n : Entry) : Prop :=
  ∀ m ∈ idx.entries, m ≠ idx.root → m.range.isSome → (m = n ∨ idx.isAncestor m.id n.id) →
    ∀ sibling ∈ idx.placedChildren (idx.placedParent m), sibling ≠ m → sibling.contains pos = false

instance (pos : Position) (n : Entry) : Decidable (idx.Uncontested pos n) :=
  inferInstanceAs (Decidable (∀ m ∈ idx.entries, m ≠ idx.root → m.range.isSome →
    (m = n ∨ idx.isAncestor m.id n.id) → ∀ sibling ∈ idx.placedChildren (idx.placedParent m),
      sibling ≠ m → sibling.contains pos = false))

variable {idx : Index}

/-! ### Placed rows in the index -/

/-- The row is one from which a step down is made: the root's, or one with a place. -/
def IsBase (idx : Index) (q : List NodeId) (p : Node) : Prop :=
  (q, p) ∈ Node.forestRows [] [idx.tree] ∧ (p.entry q = idx.root ∨ p.range.isSome = true)

private theorem entry_ne_root (idx : Index) {q path : List NodeId} {p m : Node}
    (hm : (path, m) ∈ Node.forestRows (p.id :: q) p.children) : m.entry path ≠ idx.root := by
  obtain ⟨between, rfl⟩ := Node.path_of_mem_forestRows hm
  intro he
  have hpath := congrArg Entry.ancestors he
  simp [root, Node.entry] at hpath

private theorem find?_unplaced (hd : idx.Distinct) {ids rest : List NodeId}
    (h : ∀ id ∈ ids, ∃ e ∈ idx.entries, e.id = id ∧ e.range = none) :
    ((ids ++ rest).filterMap idx.get?).find? (·.range.isSome) =
      (rest.filterMap idx.get?).find? (·.range.isSome) := by
  rw [List.filterMap_append, List.find?_append]
  have hnone : (ids.filterMap idx.get?).find? (·.range.isSome) = none := by
    rw [List.find?_eq_none]
    intro e he
    obtain ⟨id, hid, hget⟩ := List.mem_filterMap.mp he
    obtain ⟨e', he', rfl, hrange⟩ := h id hid
    rw [get?_of_mem hd he'] at hget
    cases hget
    simp [hrange]
  rw [hnone, Option.none_or]

/-- The placed parent of a placed row is the row that it was reached from. -/
private theorem placedParent_eq (hd : idx.Distinct) {q path : List NodeId} {p m : Node}
    (hp : IsBase idx q p) (hm : (path, m) ∈ Node.forestPlacedRows (p.id :: q) p.children) :
    idx.placedParent (m.entry path) = p.entry q := by
  have hrow := (Node.forestPlacedRows_sublist _ _).subset hm
  have hmem := entry_mem_of_row ((Node.forestRows_sublist_of_mem hp.1).subset hrow)
  have hpmem := entry_mem_of_row hp.1
  obtain ⟨between, rfl, hbetween⟩ := Node.path_of_mem_forestPlacedRows hm
  have hunplaced : ∀ id ∈ between, ∃ e ∈ idx.entries, e.id = id ∧ e.range = none := by
    intro id hid
    obtain ⟨q', k, hk, hkid, hrange⟩ := hbetween id hid
    have hrow := (Node.forestRows_sublist_of_mem hp.1).subset hk
    exact ⟨k.entry q', entry_mem_of_row hrow, hkid, hrange⟩
  have hget : idx.get? p.id = some (p.entry q) := get?_of_mem hd hpmem
  rw [placedParent, ancestors, get?_of_mem hd hmem]
  change (((between ++ p.id :: q).filterMap idx.get?).find? _).getD _ = _
  rw [find?_unplaced hd hunplaced, List.filterMap_cons, hget]
  simp only [List.find?_cons]
  cases hr : (p.entry q).range.isSome with
  | true => rfl
  | false =>
    have hroot : p.entry q = idx.root := by
      rcases hp.2 with h | h
      · exact h
      · rw [show (p.entry q).range = p.range from rfl, h] at hr
        cases hr
    have hq : q = [] := congrArg Entry.ancestors hroot
    subst hq
    exact hroot.symm

/-- The placed rows below a row are, in their order, placed children of its entry. -/
theorem placedRows_sublist (hd : idx.Distinct) {q : List NodeId} {p : Node}
    (hp : IsBase idx q p) :
    ((Node.forestPlacedRows (p.id :: q) p.children).map fun row => row.2.entry row.1).Sublist
      (idx.placedChildren (p.entry q)) := by
  have hrows := (Node.forestPlacedRows_sublist (p.id :: q) p.children).trans
    (Node.forestRows_sublist_of_mem hp.1)
  have hentries := (hrows.map fun row => row.2.entry row.1).filter fun e =>
    e ≠ idx.root ∧ e.range.isSome ∧ idx.placedParent e = p.entry q
  rw [← entries_eq_map_rows] at hentries
  rw [List.filter_eq_self.mpr] at hentries
  · exact hentries
  · intro e he
    obtain ⟨⟨path, m⟩, hm, rfl⟩ := List.mem_map.mp he
    have hne := entry_ne_root idx ((Node.forestPlacedRows_sublist _ _).subset hm)
    have hrange : (m.entry path).range.isSome = true := Node.isSome_range_of_mem hm
    simp [hne, hrange, placedParent_eq hd hp hm]

/-- A placed node right below a row is a placed child of its entry. -/
private theorem entry_mem_placedChildren (hd : idx.Distinct) {q path : List NodeId} {p m : Node}
    (hp : IsBase idx q p) (hm : (path, m) ∈ Node.forestPlacedRows (p.id :: q) p.children) :
    m.entry path ∈ idx.placedChildren (p.entry q) :=
  (placedRows_sublist hd hp).subset (List.mem_map.mpr ⟨(path, m), hm, rfl⟩)

/-! ### Laid out documents -/

private theorem LaidOut.nests (h : idx.LaidOut) : idx.Nests := h.within

theorem mem_placedChildren {p e : Entry} (h : e ∈ idx.placedChildren p) :
    e ∈ idx.entries ∧ e.range.isSome = true := by
  obtain ⟨hmem, hcond⟩ := List.mem_filter.mp h
  exact ⟨hmem, (of_decide_eq_true hcond).2.1⟩

/-- A placed node below the root is among the placed children of its placed parent. -/
theorem mem_placedChildren_placedParent {e : Entry} (he : e ∈ idx.entries) (hne : e ≠ idx.root)
    (hsome : e.range.isSome = true) : e ∈ idx.placedChildren (idx.placedParent e) :=
  List.mem_filter.mpr ⟨he, by simp [hne, hsome]⟩

/-- Of the placed children of a node each precedes all later ones, not only the next. -/
private theorem LaidOut.pairwise (h : idx.LaidOut) (hup : idx.Upright) {p : Entry}
    (hp : p ∈ idx.entries) (hbase : p = idx.root ∨ p.range.isSome = true) :
    (idx.placedChildren p).Pairwise Entry.Precedes := by
  apply pairwise_of_isChain Entry.range _ (h.ordered p hp hbase)
  intro e he
  obtain ⟨hmem, hsome⟩ := mem_placedChildren he
  obtain ⟨r, hr⟩ := Option.isSome_iff_exists.mp hsome
  exact ⟨r, hr, hup e hmem r hr⟩

private theorem LaidOut.pairwise_forestPlaced (h : idx.LaidOut) (hd : idx.Distinct)
    (hup : idx.Upright) {q : List NodeId} {p : Node} (hp : IsBase idx q p) :
    (Node.forestPlaced p.children).Pairwise fun a b => a.1.stop ≤ b.1.start := by
  have hrows := (h.pairwise hup (entry_mem_of_row hp.1) hp.2).sublist (placedRows_sublist hd hp)
  rw [List.pairwise_map] at hrows
  rw [Node.forestPlaced_eq (p.id :: q), List.pairwise_filterMap]
  apply hrows.imp
  intro a b hab x hx y hy
  obtain ⟨r, hr, rfl⟩ := Option.map_eq_some_iff.mp hx
  obtain ⟨s, hs, rfl⟩ := Option.map_eq_some_iff.mp hy
  exact hab r hr s hs

private theorem contains_of_inside {r : Range} {pos : Position} (hstart : r.start < pos)
    (hstop : pos < r.stop) : r.contains pos = true := by
  exact Range.contains_iff.mpr ⟨Position.le_of_lt hstart, Position.le_of_lt hstop⟩

/-- A node with a place, the root apart, is around every node with a place below it. -/
private theorem Nests.containsRange_of_below (h : idx.Nests) (hd : idx.Distinct)
    {q path : List NodeId} {p m : Node} {r s : Range}
    (hp : (q, p) ∈ Node.forestRows [] [idx.tree]) (hne : p.entry q ≠ idx.root)
    (hr : p.range = some r) (hm : (path, m) ∈ Node.forestRows (p.id :: q) p.children)
    (hs : m.range = some s) : r.containsRange s = true := by
  induction p using Node.placedInduction generalizing q r with
  | step p ih =>
    obtain ⟨q', k, hk, hrow⟩ := Node.exists_placedRow_of_mem hm (by rw [hs]; rfl)
    obtain ⟨t, ht⟩ := Option.isSome_iff_exists.mp (Node.isSome_range_of_mem hk)
    have hkrow := (Node.forestPlacedRows_sublist _ _).subset hk
    have hkmem := (Node.forestRows_sublist_of_mem hp).subset hkrow
    have hkne := entry_ne_root idx hkrow
    have hparent := placedParent_eq hd ⟨hp, Or.inr (by rw [hr]; rfl)⟩ hk
    have hrt : r.containsRange t = true := by
      have hwithin := h _ (entry_mem_of_row hkmem) hkne (by rw [hparent]; exact hne)
      rw [hparent] at hwithin
      exact hwithin t ht r hr
    rw [Node.rows_eq] at hrow
    rcases List.mem_cons.mp hrow with he | hbelow
    · cases he
      rw [hs] at ht
      cases ht
      exact hrt
    · have hmem := (Node.mem_forestPlaced_iff (p.id :: q)).mpr ⟨ht, q', hk⟩
      exact Range.containsRange_trans hrt (ih t k hmem hkmem hkne ht hbelow)

/-- Above a node around the position stands a placed child around the position. -/
private theorem Nests.exists_placed_around (h : idx.Nests) (hd : idx.Distinct)
    {q path : List NodeId} {p n : Node} {r : Range} {pos : Position} (hp : IsBase idx q p)
    (hn : (path, n) ∈ Node.forestRows (p.id :: q) p.children) (hr : n.range = some r)
    (hc : r.contains pos = true) :
    ∃ q' k s, (q', k) ∈ Node.forestPlacedRows (p.id :: q) p.children ∧ k.range = some s ∧
      s.contains pos = true ∧ (path, n) ∈ k.rows q' := by
  obtain ⟨q', k, hk, hrow⟩ := Node.exists_placedRow_of_mem hn (by rw [hr]; rfl)
  obtain ⟨s, hs⟩ := Option.isSome_iff_exists.mp (Node.isSome_range_of_mem hk)
  refine ⟨q', k, s, hk, hs, ?_, hrow⟩
  rw [Node.rows_eq] at hrow
  rcases List.mem_cons.mp hrow with he | hbelow
  · cases he
    rw [hr] at hs
    cases hs
    exact hc
  · have hkrow := (Node.forestPlacedRows_sublist _ _).subset hk
    have hkmem := (Node.forestRows_sublist_of_mem hp.1).subset hkrow
    have hsr := h.containsRange_of_below hd hkmem (entry_ne_root idx hkrow) hs hbelow hr
    exact Range.contains_of_containsRange hsr hc

/-- Of the placed nodes below one, only the one above the node is around an uncontested position. -/
private theorem eq_of_uncontested (hd : idx.Distinct) {q q' : List NodeId} {p k m : Node}
    {e : Entry} {s : Range} {pos : Position} (hp : IsBase idx q p)
    (hk : (q', k) ∈ Node.forestPlacedRows (p.id :: q) p.children) (hu : idx.Uncontested pos e)
    (habove : k.entry q' = e ∨ idx.isAncestor (k.entry q').id e.id = true)
    (hm : (s, m) ∈ Node.forestPlaced p.children) (hs : s.contains pos = true) : m = k := by
  have hkrow := (Node.forestPlacedRows_sublist _ _).subset hk
  have hkmem := (Node.forestRows_sublist_of_mem hp.1).subset hkrow
  obtain ⟨hms, qm, hmrow⟩ := (Node.mem_forestPlaced_iff (p.id :: q)).mp hm
  by_cases he : m.entry qm = k.entry q'
  · have hmmem := (Node.forestRows_sublist_of_mem hp.1).subset
      ((Node.forestPlacedRows_sublist _ _).subset hmrow)
    have hid : m.id = k.id := congrArg Entry.id he
    exact (Prod.mk.inj (row_eq_of_id_eq hd hmmem hkmem hid)).2
  · have hsibling : m.entry qm ∈ idx.placedChildren (idx.placedParent (k.entry q')) := by
      rw [placedParent_eq hd hp hk]
      exact entry_mem_placedChildren hd hp hmrow
    have hnot := hu _ (entry_mem_of_row hkmem) (entry_ne_root idx hkrow)
      (Node.isSome_range_of_mem hk) habove _ hsibling he
    have hyes : (m.entry qm).contains pos = true := by
      rw [Entry.contains, show (m.entry qm).range = some s from hms]
      exact hs
    rw [hnot] at hyes
    cases hyes

/-- Where nobody contests the position, every way down towards it leads to the node or below. -/
private theorem Nests.innermost_mem_rows (h : idx.Nests) (hd : idx.Distinct)
    {q path : List NodeId} {p n m : Node} {r s : Range} {pos : Position} (hp : IsBase idx q p)
    (hn : (path, n) ∈ Node.forestRows (p.id :: q) p.children) (hr : n.range = some r)
    (hc : r.contains pos = true) (hu : idx.Uncontested pos (n.entry path))
    (hm : (s, m) ∈ Node.forestPlaced p.children) (hs : s.contains pos = true) :
    ∃ path', (path', m.innermost pos) ∈ n.rows path := by
  induction p using Node.placedInduction generalizing q m s with
  | step p ih =>
    obtain ⟨q', k, t, hk, ht, htc, hrow⟩ := h.exists_placed_around hd hp hn hr hc
    have hkrow := (Node.forestPlacedRows_sublist _ _).subset hk
    have hkmem := (Node.forestRows_sublist_of_mem hp.1).subset hkrow
    have habove : k.entry q' = n.entry path ∨
        idx.isAncestor (k.entry q').id (n.entry path).id = true := by
      have hnmem := (Node.forestRows_sublist_of_mem hp.1).subset hn
      exact eq_or_isAncestor_of_mem_rows hd hnmem hrow
    have hkm : m = k := eq_of_uncontested hd hp hk hu habove hm hs
    subst hkm
    rw [Node.rows_eq] at hrow
    rcases List.mem_cons.mp hrow with he | hbelow
    · cases he
      exact Node.innermost_mem_rows n pos path
    · have hkbase : IsBase idx q' m := ⟨hkmem, Or.inr (Node.isSome_range_of_mem hk)⟩
      rcases m.innermost_cases pos with ⟨-, hnone⟩ | ⟨u, c, hcmem, huc, he⟩
      · obtain ⟨qc, c, v, hcrow, hv, hvc, -⟩ := h.exists_placed_around hd hkbase hbelow hr hc
        have hcmem := (Node.mem_forestPlaced_iff (m.id :: q')).mpr ⟨hv, qc, hcrow⟩
        rw [hnone v c hcmem] at hvc
        cases hvc
      · rw [he]
        exact ih s m hm hkbase hbelow hcmem huc

/-- One of the entries precedes the other. -/
private def Apart (a b : Entry) : Prop := a.Precedes b ∨ b.Precedes a

private instance : Std.Symm Apart := ⟨fun _ _ h => h.symm⟩

theorem placedParent_isBase (m : Entry) :
    idx.placedParent m ∈ idx.entries ∧
      (idx.placedParent m = idx.root ∨ (idx.placedParent m).range.isSome = true) := by
  unfold placedParent
  cases hf : (idx.ancestors m.id).find? (·.range.isSome) with
  | none => exact ⟨idx.root_mem, Or.inl rfl⟩
  | some p =>
    refine ⟨mem_of_mem_ancestors (List.mem_of_find?_eq_some hf), Or.inr ?_⟩
    have hp := List.find?_some hf
    exact hp

/-- A placed node, and every placed node above it but the root, is around the node's range. -/
theorem Nests.containsRange_of_above (h : idx.Nests) (hd : idx.Distinct) {m n : Entry}
    {r s : Range} (hm : m ∈ idx.entries) (hne : m ≠ idx.root) (hn : n ∈ idx.entries)
    (hs : m.range = some s) (hr : n.range = some r)
    (habove : m = n ∨ idx.isAncestor m.id n.id = true) : s.containsRange r = true := by
  rcases habove with rfl | habove
  · rw [hr] at hs
    cases hs
    exact Range.containsRange_self _
  · obtain ⟨q, k, hk, rfl⟩ := exists_row_of_mem hm
    obtain ⟨path, k', hk', rfl⟩ := exists_row_of_mem hn
    have hbelow := mem_forestRows_of_isAncestor hd hk hk' habove
    exact h.containsRange_of_below hd hk hne hs hbelow hr

/-- A node with the position strictly inside is uncontested: its siblings, and those of the nodes
above, are clear of the position. -/
private theorem LaidOut.uncontested (h : idx.LaidOut) (hd : idx.Distinct) (hup : idx.Upright)
    {n : Entry} {r : Range} {pos : Position} (hn : n ∈ idx.entries) (hr : n.range = some r)
    (hstart : r.start < pos) (hstop : pos < r.stop) : idx.Uncontested pos n := by
  intro m hm hmne hmsome habove sibling hsibling hne
  obtain ⟨s, hs⟩ := Option.isSome_iff_exists.mp hmsome
  have hsr := h.nests.containsRange_of_above hd hm hmne hn hs hr habove
  rw [Range.containsRange_iff] at hsr
  have hself := mem_placedChildren_placedParent hm hmne hmsome
  have hbase := idx.placedParent_isBase m
  have hpairs : (idx.placedChildren (idx.placedParent m)).Pairwise Apart :=
    (h.pairwise hup hbase.1 hbase.2).imp Or.inl
  rw [Bool.eq_false_iff]
  intro hc
  obtain ⟨t, ht, htc⟩ := Entry.contains_iff.mp hc
  rw [Range.contains_iff] at htc
  rcases hpairs.forall hsibling hself hne with hbefore | hafter
  · have hle : pos ≤ r.start :=
      Position.le_trans htc.2 (Position.le_trans (hbefore t ht s hs) hsr.1)
    exact Position.not_le.mpr hstart hle
  · have hle : r.stop ≤ pos :=
      Position.le_trans hsr.2 (Position.le_trans (hafter s hs t ht) htc.1)
    exact Position.not_le.mpr hstop hle

/-! ### Pre-order and positions -/

theorem isBase_root (idx : Index) : IsBase idx [] idx.tree :=
  ⟨Node.mem_forestRows_of_mem List.mem_cons_self, Or.inl rfl⟩

/-- Below a placed row, the root's apart, or right at it, a node lies inside. -/
private theorem Nests.containsRange_of_mem_rows (h : idx.Nests) (hd : idx.Distinct)
    {q q' path : List NodeId} {p k m : Node} {r s : Range} (hp : IsBase idx q p)
    (hk : (q', k) ∈ Node.forestPlacedRows (p.id :: q) p.children) (hr : k.range = some r)
    (hm : (path, m) ∈ k.rows q') (hs : m.range = some s) : r.containsRange s = true := by
  have hrow := (Node.forestPlacedRows_sublist _ _).subset hk
  rw [Node.rows_eq] at hm
  rcases List.mem_cons.mp hm with he | hm
  · cases he
    rw [hr] at hs
    cases hs
    exact Range.containsRange_self _
  · have hkmem := (Node.forestRows_sublist_of_mem hp.1).subset hrow
    exact h.containsRange_of_below hd hkmem (entry_ne_root idx hrow) hr hm hs

/-- Of the placed rows below a row each lies above a later one or ends before it starts. -/
private theorem LaidOut.pairwise_rows (h : idx.LaidOut) (hd : idx.Distinct) (hup : idx.Upright)
    {q : List NodeId} {p : Node} (hp : IsBase idx q p) :
    ((Node.forestRows (p.id :: q) p.children).filter (·.2.range.isSome)).Pairwise fun x y =>
      idx.isAncestor x.2.id y.2.id = true ∨ (x.2.entry x.1).Precedes (y.2.entry y.1) := by
  induction p using Node.placedInduction generalizing q with
  | step p ih =>
    rw [Node.filter_forestRows, List.pairwise_flatMap]
    constructor
    · rintro ⟨q', k⟩ hk
      have hrow := (Node.forestPlacedRows_sublist _ _).subset hk
      have hkmem := (Node.forestRows_sublist_of_mem hp.1).subset hrow
      have hsome := Node.isSome_range_of_mem hk
      obtain ⟨t, ht⟩ := Option.isSome_iff_exists.mp hsome
      simp only [Node.rows_eq, List.filter_cons, hsome, ↓reduceIte, List.pairwise_cons]
      constructor
      · rintro ⟨path, m⟩ hm
        left
        have hbelow := (List.mem_filter.mp hm).1
        have hmem := entry_mem_of_row ((Node.forestRows_sublist_of_mem hkmem).subset hbelow)
        obtain ⟨between, rfl⟩ := Node.path_of_mem_forestRows hbelow
        exact (isAncestor_iff hd hmem).mpr (List.mem_append_right _ List.mem_cons_self)
      · have hplaced := (Node.mem_forestPlaced_iff (p.id :: q)).mpr ⟨ht, q', hk⟩
        exact ih t k hplaced ⟨hkmem, Or.inr hsome⟩
    · have hpairs := (h.pairwise hup (entry_mem_of_row hp.1) hp.2).sublist
        (placedRows_sublist hd hp)
      rw [List.pairwise_map] at hpairs
      apply hpairs.imp_of_mem
      rintro ⟨q₁, k₁⟩ ⟨q₂, k₂⟩ hk₁ hk₂ hprecedes ⟨path₁, m₁⟩ hm₁ ⟨path₂, m₂⟩ hm₂
      right
      intro r₁ hr₁ r₂ hr₂
      obtain ⟨t₁, ht₁⟩ := Option.isSome_iff_exists.mp (Node.isSome_range_of_mem hk₁)
      obtain ⟨t₂, ht₂⟩ := Option.isSome_iff_exists.mp (Node.isSome_range_of_mem hk₂)
      have hin₁ := h.nests.containsRange_of_mem_rows hd hp hk₁ ht₁ (List.mem_filter.mp hm₁).1 hr₁
      have hin₂ := h.nests.containsRange_of_mem_rows hd hp hk₂ ht₂ (List.mem_filter.mp hm₂).1 hr₂
      rw [Range.containsRange_iff] at hin₁ hin₂
      exact Position.le_trans hin₁.2 (Position.le_trans (hprecedes t₁ ht₁ t₂ ht₂) hin₂.1)

/-- In a laid out document, of two placed nodes below the root the first lies above the second or
ends before it starts. -/
theorem LaidOut.pairwise_tail (h : idx.LaidOut) (hd : idx.Distinct) (hup : idx.Upright) :
    idx.entries.tail.Pairwise fun x y => idx.isAncestor x.id y.id = true ∨ x.Precedes y := by
  have hrows := h.pairwise_rows hd hup (isBase_root idx)
  rw [List.pairwise_filter] at hrows
  rw [entries_eq_map_rows, Node.forestRows_singleton, Node.rows_eq, List.map_cons, List.tail_cons,
    List.pairwise_map]
  apply hrows.imp
  intro x y hxy
  by_cases hx : x.2.range.isSome = true
  · by_cases hy : y.2.range.isSome = true
    · exact hxy hx hy
    · right
      intro r _ s hs
      exact absurd (Option.isSome_of_eq_some hs) hy
  · right
    intro r hr
    exact absurd (Option.isSome_of_eq_some hr) hx

/-! ### Look-up by position -/

private theorem exists_row_below_root {e : Entry} (he : e ∈ idx.entries) (hne : e ≠ idx.root) :
    ∃ path n, (path, n) ∈ Node.forestRows [idx.tree.id] idx.tree.children ∧ e = n.entry path := by
  obtain ⟨path, n, hrow, rfl⟩ := exists_row_of_mem he
  rw [Node.forestRows_singleton, Node.rows_eq] at hrow
  rcases List.mem_cons.mp hrow with heq | hbelow
  · cases heq
    exact absurd rfl hne
  · exact ⟨path, n, hbelow, rfl⟩

/-- The node located from a placed row around the position has its entry, below the root. -/
theorem entryAt?_of_locate? (hd : idx.Distinct) {pos : Position} {x : Node}
    (hx : idx.tree.locate? pos = some x) :
    ∃ path, (path, x) ∈ Node.forestRows [idx.tree.id] idx.tree.children ∧
      idx.entryAt? pos = some (x.entry path) := by
  obtain ⟨r, top, htop, -, rfl⟩ := Node.locate?_eq_some hx
  obtain ⟨-, q, hq⟩ := (Node.mem_forestPlaced_iff [idx.tree.id]).mp htop
  obtain ⟨path, hpath⟩ := top.innermost_mem_rows pos q
  have hplaced := (Node.forestPlacedRows_sublist _ _).subset hq
  have hrow := (Node.rows_sublist_of_mem hplaced).subset hpath
  have hmem := entry_mem_of_row ((Node.forestRows_sublist_of_mem (isBase_root idx).1).subset hrow)
  refine ⟨path, hrow, ?_⟩
  rw [entryAt?, hx]
  exact get?_of_mem hd hmem

/-- What position look-up finds is an entry below the root, around the position. -/
theorem entryAt?_eq_some (hd : idx.Distinct) {pos : Position} {e : Entry}
    (h : idx.entryAt? pos = some e) :
    e ∈ idx.entries ∧ e ≠ idx.root ∧ e.contains pos = true := by
  obtain ⟨x, hx, -⟩ := Option.bind_eq_some_iff.mp h
  obtain ⟨path, hrow, he⟩ := entryAt?_of_locate? hd hx
  rw [he] at h
  cases h
  refine ⟨?_, entry_ne_root idx hrow, ?_⟩
  · exact entry_mem_of_row ((Node.forestRows_sublist_of_mem (isBase_root idx).1).subset hrow)
  · obtain ⟨r, top, htop, hc, rfl⟩ := Node.locate?_eq_some hx
    obtain ⟨hr, -⟩ := (Node.mem_forestPlaced_iff []).mp htop
    obtain ⟨r', hr', hc'⟩ := Node.innermost_contains hr hc
    rw [Entry.contains, show ((top.innermost pos).entry path).range = some r' from hr']
    exact hc'

/-- A node with a place, or the root, has a placed child around the position if a node below it is
around the position. -/
theorem Nests.exists_placedChild_around (h : idx.Nests) (hd : idx.Distinct) {p e : Entry}
    {pos : Position} (hp : p ∈ idx.entries) (hbase : p = idx.root ∨ p.range.isSome = true)
    (he : e ∈ idx.entries) (hbelow : idx.isAncestor p.id e.id = true) (hc : e.contains pos = true) :
    ∃ c ∈ idx.placedChildren p, c.contains pos = true := by
  obtain ⟨q, k, hk, rfl⟩ := exists_row_of_mem hp
  obtain ⟨path, n, hn, rfl⟩ := exists_row_of_mem he
  obtain ⟨r, hr, hrc⟩ := Entry.contains_iff.mp hc
  have hrow := mem_forestRows_of_isAncestor hd hk hn hbelow
  obtain ⟨q', c, s, hcrow, hs, hsc, -⟩ := h.exists_placed_around hd ⟨hk, hbase⟩ hrow hr hrc
  refine ⟨c.entry q', entry_mem_placedChildren hd ⟨hk, hbase⟩ hcrow, ?_⟩
  exact Entry.contains_iff.mpr ⟨s, hs, hsc⟩

/-- Below the root some outermost placed node is around the position, if any node is. -/
private theorem Nests.exists_outermost_around (h : idx.Nests) (hd : idx.Distinct) {e : Entry}
    {pos : Position} (he : e ∈ idx.entries) (hne : e ≠ idx.root) (hc : e.contains pos = true) :
    ∃ r k, (r, k) ∈ Node.forestPlaced idx.tree.children ∧ r.contains pos = true := by
  obtain ⟨path, n, hrow, rfl⟩ := exists_row_below_root he hne
  obtain ⟨r, hr, hrc⟩ := Entry.contains_iff.mp hc
  obtain ⟨q, k, s, hk, hs, hsc, -⟩ := h.exists_placed_around hd (isBase_root idx) hrow hr hrc
  exact ⟨s, k, (Node.mem_forestPlaced_iff [idx.tree.id]).mpr ⟨hs, q, hk⟩, hsc⟩

/-- The way down has a start if every outermost placed node that starts between one around the
position and the position is around it. -/
theorem Nests.exists_locate? (h : idx.Nests) (hd : idx.Distinct) {e : Entry} {pos : Position}
    (he : e ∈ idx.entries) (hne : e ≠ idx.root) (hc : e.contains pos = true)
    (hlater : ∀ a ∈ idx.placedChildren idx.root, ∀ b ∈ idx.placedChildren idx.root,
      ∀ r ∈ a.range, ∀ s ∈ b.range, r.contains pos = true → r.start ≤ s.start → s.start ≤ pos →
        s.contains pos = true) : ∃ x, idx.tree.locate? pos = some x := by
  have hbase := isBase_root idx
  obtain ⟨r, k, hk, hrc⟩ := h.exists_outermost_around hd he hne hc
  obtain ⟨⟨s, top⟩, htop, hle⟩ := Node.exists_lastStarted? hk (Range.contains_iff.mp hrc).1
  obtain ⟨hmem, hstart⟩ := Node.mem_of_lastStarted? htop
  obtain ⟨hr, q, hrow⟩ := (Node.mem_forestPlaced_iff [idx.tree.id]).mp hk
  obtain ⟨hs, q', htopRow⟩ := (Node.mem_forestPlaced_iff [idx.tree.id]).mp hmem
  have hsc : s.contains pos = true :=
    hlater _ (entry_mem_placedChildren hd hbase hrow) _ (entry_mem_placedChildren hd hbase htopRow)
      r hr s hs hrc hle hstart
  exact ⟨_, Node.locate?_of_lastStarted? htop hsc⟩

/-- Where nobody contests the position of a node and the way down has a start, look-up finds the
node or one below it. -/
theorem Nests.entryAt?_of_uncontested (h : idx.Nests) (hd : idx.Distinct) {n : Entry}
    {pos : Position} (hn : n ∈ idx.entries) (hne : n ≠ idx.root) (hc : n.contains pos = true)
    (hu : idx.Uncontested pos n) (hlocate : ∃ x, idx.tree.locate? pos = some x) :
    ∃ found, idx.entryAt? pos = some found ∧
      (found = n ∨ idx.isAncestor n.id found.id = true) := by
  obtain ⟨path, k, hrow, rfl⟩ := exists_row_below_root hn hne
  obtain ⟨r, hr, hrc⟩ := Entry.contains_iff.mp hc
  obtain ⟨x, hx⟩ := hlocate
  obtain ⟨q, hq, hat⟩ := entryAt?_of_locate? hd hx
  refine ⟨x.entry q, hat, ?_⟩
  have hbase := isBase_root idx
  have hxmem := (Node.forestRows_sublist_of_mem hbase.1).subset hq
  obtain ⟨s, top, htop, hsc, hxtop⟩ := Node.locate?_eq_some hx
  obtain ⟨path', hbelow⟩ := h.innermost_mem_rows hd hbase hrow hr hrc hu htop hsc
  rw [← hxtop] at hbelow
  have hnmem := (Node.forestRows_sublist_of_mem hbase.1).subset hrow
  have hbmem := (Node.rows_sublist_of_mem hnmem).subset hbelow
  cases row_eq_of_id_eq hd hbmem hxmem rfl
  rcases eq_or_isAncestor_of_mem_rows hd hxmem hbelow with he | habove
  · exact Or.inl he.symm
  · exact Or.inr habove

/-- Some outermost placed node around the position starts the way down, if any node is around it. -/
private theorem LaidOut.exists_locate? (h : idx.LaidOut) (hd : idx.Distinct) (hup : idx.Upright)
    {e : Entry} {pos : Position} (he : e ∈ idx.entries) (hne : e ≠ idx.root)
    (hc : e.contains pos = true) : ∃ x, idx.tree.locate? pos = some x := by
  have hbase := isBase_root idx
  obtain ⟨r, k, hk, hrc⟩ := h.nests.exists_outermost_around hd he hne hc
  have hupright : ∀ x ∈ Node.forestPlaced idx.tree.children, x.1.start ≤ x.1.stop := by
    intro x hx
    obtain ⟨hrange, qx, hxrow⟩ := (Node.mem_forestPlaced_iff [idx.tree.id]).mp hx
    have hrow := (Node.forestRows_sublist_of_mem hbase.1).subset
      ((Node.forestPlacedRows_sublist _ _).subset hxrow)
    exact hup _ (entry_mem_of_row hrow) x.1 hrange
  obtain ⟨⟨t, top⟩, htop, htc⟩ :=
    Node.lastStarted?_contains (h.pairwise_forestPlaced hd hup hbase) hupright hk hrc
  exact ⟨_, Node.locate?_of_lastStarted? htop htc⟩

private theorem LaidOut.exists_entryAt? (h : idx.LaidOut) (hd : idx.Distinct) (hup : idx.Upright)
    {e : Entry} {pos : Position} (he : e ∈ idx.entries) (hne : e ≠ idx.root)
    (hc : e.contains pos = true) : ∃ found, idx.entryAt? pos = some found := by
  obtain ⟨x, hx⟩ := h.exists_locate? hd hup he hne hc
  obtain ⟨q, -, hat⟩ := entryAt?_of_locate? hd hx
  exact ⟨x.entry q, hat⟩

/-- Where nobody contests the position of a node, look-up finds the node or one below it. -/
private theorem LaidOut.entryAt?_of_uncontested (h : idx.LaidOut) (hd : idx.Distinct)
    (hup : idx.Upright) {n : Entry} {pos : Position} (hn : n ∈ idx.entries) (hne : n ≠ idx.root)
    (hc : n.contains pos = true) (hu : idx.Uncontested pos n) :
    ∃ found, idx.entryAt? pos = some found ∧
      (found = n ∨ idx.isAncestor n.id found.id = true) :=
  h.nests.entryAt?_of_uncontested hd hn hne hc hu (h.exists_locate? hd hup hn hne hc)

/-- In a laid out document look-up finds a node wherever one is around the position, and the
innermost one where no sibling competes. -/
theorem entryAt?_innermost (root : Node) (h : (ofTree root).LaidOut) (pos : Position) :
    (((ofTree root).entryAt? pos).isSome ↔
      ∃ n ∈ (ofTree root).entries, n ≠ (ofTree root).root ∧ n.contains pos) ∧
    (∀ n ∈ (ofTree root).entries, n ≠ (ofTree root).root → n.contains pos →
      (ofTree root).Uncontested pos n →
      ∃ found, (ofTree root).entryAt? pos = some found ∧
        (found = n ∨ (ofTree root).isAncestor n.id found.id)) ∧
    (∀ n ∈ (ofTree root).entries, n ≠ (ofTree root).root →
      ∀ r ∈ n.range, r.start < pos → pos < r.stop →
      ∃ found, (ofTree root).entryAt? pos = some found ∧
        (found = n ∨ (ofTree root).isAncestor n.id found.id)) := by
  have hd := distinct_ofTree root
  have hup := upright_ofTree root
  refine ⟨⟨?_, ?_⟩, ?_, ?_⟩
  · intro hsome
    obtain ⟨e, he⟩ := Option.isSome_iff_exists.mp hsome
    obtain ⟨hmem, hne, hc⟩ := entryAt?_eq_some hd he
    exact ⟨e, hmem, hne, hc⟩
  · rintro ⟨n, hn, hne, hc⟩
    exact Option.isSome_iff_exists.mpr (h.exists_entryAt? hd hup hn hne hc)
  · intro n hn hne hc hu
    exact h.entryAt?_of_uncontested hd hup hn hne hc hu
  · intro n hn hne r hr hstart hstop
    have hc : n.contains pos = true := by
      apply (Option.any_eq_true _ _).mpr
      exact ⟨r, hr, contains_of_inside hstart hstop⟩
    exact h.entryAt?_of_uncontested hd hup hn hne hc (h.uncontested hd hup hn hr hstart hstop)

/-- A block around an empty name, below a statement without a place, and a class reference that
touches the block. -/
private def touching : Node :=
  ⟨⟨0⟩, .moduleRoot, none,
    [⟨⟨1⟩, .block, some (.ofCorners 0 0 0 4),
      [⟨⟨2⟩, .expressionStatement, none,
        [⟨⟨3⟩, .variableRef "x", some (.ofCorners 0 2 0 2), []⟩]⟩]⟩,
    ⟨⟨4⟩, .classRef "Item", some (.ofCorners 0 4 0 8), []⟩]⟩

private def emptyName : Entry :=
  ⟨⟨3⟩, .variableRef "x", some (.ofCorners 0 2 0 2), [], [⟨2⟩, ⟨1⟩, ⟨0⟩]⟩

private theorem laidOut_touching : (ofTree touching).LaidOut where
  within := by decide
  ordered := by decide

/-- The empty name is the innermost node at its place, and where the block and the class reference
touch, one of them is found. -/
theorem entryAt?_innermost_touching :
    (ofTree touching).LaidOut ∧
    (∃ found, (ofTree touching).entryAt? ⟨0, 2⟩ = some found ∧
      (found = emptyName ∨ (ofTree touching).isAncestor emptyName.id found.id)) ∧
    ((ofTree touching).entryAt? ⟨0, 4⟩).isSome := by
  have hlaid := laidOut_touching
  refine ⟨hlaid, ?_, ?_⟩
  · exact (entryAt?_innermost touching hlaid ⟨0, 2⟩).2.1 emptyName (by decide) (by decide)
      (by decide) (by decide)
  · exact (entryAt?_innermost touching hlaid ⟨0, 4⟩).1.mpr (by decide)

end Index

end GroovyIndex
