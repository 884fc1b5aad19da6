import Mathlib.Data.List.Nodup
import GroovyIndex.Proofs.Tree
import GroovyIndex.Snapshot

/-!
# Structure of an index

Ids are distinct in the index of a tree, so an id stands for one entry. Entries hang together by
`IsParent`: every entry is the root or has a parent, the nodes above an entry are its parent and the
nodes above that, and the children of an entry are those whose parent it is.
-/

namespace GroovyIndex

/-- A node with a place in the source has an identifier. -/
theorem Entry.exists_nameRange? {e : Entry} {range : Range} (h : e.range = some range) :
    ∃ identifier, e.nameRange? = some identifier := by
  rw [nameRange?, h]
  cases e.kind.nameRange? with
  | none => exact ⟨range, rfl⟩
  | some identifier => exact ⟨identifier, rfl⟩

namespace Index

/-- No two entries of the index have one id. -/
def Distinct (idx : Index) : Prop := (idx.entries.map Entry.id).Nodup

/-- No range of the index is inverted. -/
def Upright (idx : Index) : Prop := ∀ e ∈ idx.entries, ∀ r ∈ e.range, r.start ≤ r.stop

/-- The first entry stands right above the second. -/
def IsParent (idx : Index) (p e : Entry) : Prop :=
  p ∈ idx.entries ∧ e ∈ idx.entries ∧ e.ancestors = p.id :: p.ancestors

variable {idx : Index}

/-- The entries are what the index keeps of the rows of its tree, in the same order. -/
theorem entries_eq_map_rows (idx : Index) :
    idx.entries = (Node.forestRows [] [idx.tree]).map fun row => row.2.entry row.1 := by
  rw [idx.entries_eq, Node.entries_eq_map_rows, Node.forestRows_singleton]

/-- An entry is what the index keeps of a row of its tree. -/
theorem exists_row_of_mem {e : Entry} (h : e ∈ idx.entries) :
    ∃ path n, (path, n) ∈ Node.forestRows [] [idx.tree] ∧ e = n.entry path := by
  rw [entries_eq_map_rows] at h
  obtain ⟨⟨path, n⟩, hrow, he⟩ := List.mem_map.mp h
  exact ⟨path, n, hrow, he.symm⟩

/-- A row of the tree has its entry. -/
theorem entry_mem_of_row {path : List NodeId} {n : Node}
    (h : (path, n) ∈ Node.forestRows [] [idx.tree]) : n.entry path ∈ idx.entries := by
  rw [entries_eq_map_rows]
  exact List.mem_map.mpr ⟨(path, n), h, rfl⟩

/-- The ids of the entries are those of the nodes of the tree, in pre-order. -/
theorem map_id_entries (idx : Index) :
    idx.entries.map Entry.id = idx.tree.preorder.map Node.id := by
  rw [idx.entries_eq, Node.entries_eq_map_rows, ← Node.map_snd_rows [], List.map_map, List.map_map]
  rfl

/-- An entry says of a node what the node says of itself, in pre-order. -/
theorem map_content_entries (idx : Index) :
    idx.entries.map (fun e => (e.id, e.kind, e.range, e.children)) =
      idx.tree.preorder.map (fun n => (n.id, n.kind, n.range, n.children.map Node.id)) := by
  rw [idx.entries_eq, Node.entries_eq_map_rows, ← Node.map_snd_rows [], List.map_map, List.map_map]
  rfl

/-- Ids are distinct in the index of any tree. -/
theorem distinct_ofTree (root : Node) : (ofTree root).Distinct := by
  rw [Distinct, map_id_entries]
  exact Node.nodup_ids_pruned root

/-- Where ids are distinct, two rows whose nodes have one id are one row. -/
theorem row_eq_of_id_eq {idx : Index} (hd : idx.Distinct) {q r : List NodeId} {m n : Node}
    (hm : (q, m) ∈ Node.forestRows [] [idx.tree]) (hn : (r, n) ∈ Node.forestRows [] [idx.tree])
    (h : m.id = n.id) : (q, m) = (r, n) := by
  rw [Distinct, entries_eq_map_rows, List.map_map] at hd
  exact List.inj_on_of_nodup_map hd hm hn h

/-- An entry is what the index keeps of a node of its tree. -/
theorem exists_node_of_mem {e : Entry} (h : e ∈ idx.entries) :
    ∃ n ∈ idx.tree.preorder, ∃ path, e = n.entry path := by
  obtain ⟨path, n, hrow, rfl⟩ := exists_row_of_mem h
  refine ⟨n, ?_, path, rfl⟩
  rw [Node.forestRows_singleton] at hrow
  rw [← Node.map_snd_rows []]
  exact List.mem_map.mpr ⟨(path, n), hrow, rfl⟩

/-- No range is inverted in the index of any tree. -/
theorem upright_ofTree (root : Node) : (ofTree root).Upright := by
  intro e he r hr
  obtain ⟨n, hn, path, rfl⟩ := exists_node_of_mem he
  exact Range.isInverted_eq_false_iff.mp (Node.not_inverted_of_mem_pruned hn hr)

/-! ### Entries by id -/

/-- What is found under an id is an entry with that id. -/
theorem mem_of_get? {id : NodeId} {e : Entry} (h : idx.get? id = some e) :
    e ∈ idx.entries ∧ e.id = id := by
  refine ⟨List.mem_of_find?_eq_some h, ?_⟩
  simpa using List.find?_some h

/-- Where ids are distinct, each entry is found under its id. -/
theorem get?_of_mem (hd : idx.Distinct) {e : Entry} (h : e ∈ idx.entries) :
    idx.get? e.id = some e := by
  cases hf : idx.get? e.id with
  | none =>
    have hn := List.find?_eq_none.mp hf e h
    simp at hn
  | some found =>
    obtain ⟨hmem, hid⟩ := mem_of_get? hf
    rw [List.inj_on_of_nodup_map hd hmem h hid]

/-- Where ids are distinct, two entries with one id are one entry. -/
theorem eq_of_id_eq (hd : idx.Distinct) {e f : Entry} (he : e ∈ idx.entries)
    (hf : f ∈ idx.entries) (h : e.id = f.id) : e = f :=
  List.inj_on_of_nodup_map hd he hf h

/-- The root is an entry. -/
theorem root_mem (idx : Index) : idx.root ∈ idx.entries :=
  entry_mem_of_row (Node.mem_forestRows_of_mem List.mem_cons_self)

/-! ### Parents and children -/

/-- Every entry but the root has a parent, which lists it among its children. -/
theorem root_or_parent {e : Entry} (h : e ∈ idx.entries) :
    e = idx.root ∨ ∃ p, idx.IsParent p e ∧ e.id ∈ p.children := by
  obtain ⟨path, n, hrow, rfl⟩ := exists_row_of_mem h
  rcases Node.mem_forestRows_cases hrow with ⟨rfl, hn⟩ | ⟨q, p, hp, hn, rfl⟩
  · left
    rw [List.mem_singleton.mp hn]
    rfl
  · right
    refine ⟨p.entry q, ⟨entry_mem_of_row hp, h, rfl⟩, ?_⟩
    exact List.mem_map.mpr ⟨n, hn, rfl⟩

/-- Each id among the children of an entry is that of an entry right below it. -/
theorem exists_child {p : Entry} {id : NodeId} (hp : p ∈ idx.entries) (h : id ∈ p.children) :
    ∃ c, idx.IsParent p c ∧ c.id = id := by
  obtain ⟨path, n, hrow, rfl⟩ := exists_row_of_mem hp
  obtain ⟨m, hm, rfl⟩ := List.mem_map.mp h
  have hc := entry_mem_of_row (Node.child_mem_forestRows hrow hm)
  exact ⟨m.entry (n.id :: path), ⟨hp, hc, rfl⟩, rfl⟩

/-- Where ids are distinct, an entry has one parent. -/
theorem IsParent.unique (hd : idx.Distinct) {p q e : Entry} (hp : idx.IsParent p e)
    (hq : idx.IsParent q e) : p = q := by
  obtain ⟨hpm, -, hpe⟩ := hp
  obtain ⟨hqm, -, hqe⟩ := hq
  rw [hpe] at hqe
  exact eq_of_id_eq hd hpm hqm (List.cons.inj hqe).1

/-- The children of an entry are the entries right below it. -/
theorem mem_children_iff (hd : idx.Distinct) {p c : Entry} (hp : p ∈ idx.entries) :
    c ∈ idx.children p.id ↔ idx.IsParent p c := by
  rw [children, get?_of_mem hd hp]
  constructor
  · intro h
    obtain ⟨id, hid, hget⟩ := List.mem_filterMap.mp h
    obtain ⟨hc, rfl⟩ := mem_of_get? hget
    obtain ⟨c', hlink, hid'⟩ := exists_child hp hid
    rwa [eq_of_id_eq hd hc hlink.2.1 hid'.symm]
  · intro h
    have hc := h.2.1
    rcases root_or_parent hc with rfl | ⟨q, hq, hmem⟩
    · have hne := h.2.2
      simp [root, Node.entry] at hne
    · rw [IsParent.unique hd h hq]
      exact List.mem_filterMap.mpr ⟨c.id, hmem, get?_of_mem hd hc⟩

/-- Above an entry stand its parent and what is above that. -/
theorem IsParent.ancestors_eq (hd : idx.Distinct) {p e : Entry} (h : idx.IsParent p e) :
    idx.ancestors e.id = p :: idx.ancestors p.id := by
  obtain ⟨hp, he, hlink⟩ := h
  have hpget := get?_of_mem hd hp
  simp only [ancestors, get?_of_mem hd he, hpget, hlink, List.filterMap_cons]

/-- The node right above an entry is its parent. -/
theorem IsParent.parent?_eq (hd : idx.Distinct) {p e : Entry} (h : idx.IsParent p e) :
    idx.parent? e.id = some p := by
  rw [parent?, h.ancestors_eq hd, List.head?_cons]

/-- What stands above an entry is in the index. -/
theorem mem_of_mem_ancestors {id : NodeId} {a : Entry} (h : a ∈ idx.ancestors id) :
    a ∈ idx.entries := by
  unfold ancestors at h
  split at h
  · obtain ⟨_, _, hget⟩ := List.mem_filterMap.mp h
    exact (mem_of_get? hget).1
  · cases h

/-- Induction from the root downwards: a property of the root that passes from each entry to those
right below holds of every entry. -/
theorem induction_down {motive : Entry → Prop} (root : motive idx.root)
    (step : ∀ p e, idx.IsParent p e → motive p → motive e) {e : Entry} (he : e ∈ idx.entries) :
    motive e := by
  have all (n : Nat) : ∀ e ∈ idx.entries, e.ancestors.length = n → motive e := by
    induction n with
    | zero =>
      intro e he hn
      rcases root_or_parent he with rfl | ⟨p, hp, -⟩
      · exact root
      · simp [hp.2.2] at hn
    | succ n ih =>
      intro e he hn
      rcases root_or_parent he with rfl | ⟨p, hp, -⟩
      · exact root
      · apply step p e hp
        apply ih p hp.1
        simpa [hp.2.2] using hn
  exact all e.ancestors.length e he rfl

/-- Every id above an entry is that of an entry. -/
theorem exists_of_mem_ancestors {e : Entry} {id : NodeId} (he : e ∈ idx.entries)
    (h : id ∈ e.ancestors) : ∃ a ∈ idx.entries, a.id = id := by
  refine induction_down (motive := fun e => id ∈ e.ancestors → ∃ a ∈ idx.entries, a.id = id)
    ?_ ?_ he h
  · intro h
    cases h
  · intro p e hp ih h
    rw [hp.2.2] at h
    rcases List.mem_cons.mp h with rfl | h
    · exact ⟨p, hp.1, rfl⟩
    · exact ih h

/-- A node lies above an entry exactly if the entry names it among those above. -/
theorem isAncestor_iff (hd : idx.Distinct) {e : Entry} {id : NodeId} (he : e ∈ idx.entries) :
    idx.isAncestor id e.id = true ↔ id ∈ e.ancestors := by
  rw [isAncestor, ancestors, get?_of_mem hd he, List.any_eq_true]
  constructor
  · rintro ⟨a, ha, hid⟩
    obtain ⟨id', hmem, hget⟩ := List.mem_filterMap.mp ha
    rwa [← beq_iff_eq.mp hid, (mem_of_get? hget).2]
  · intro h
    obtain ⟨a, ha, rfl⟩ := exists_of_mem_ancestors he h
    exact ⟨a, List.mem_filterMap.mpr ⟨a.id, h, get?_of_mem hd ha⟩, beq_self_eq_true _⟩

/-- A row at or below another has its entry, or the other one's entry lies above its own. -/
theorem eq_or_isAncestor_of_mem_rows (hd : idx.Distinct) {q path : List NodeId} {p m : Node}
    (hm : (path, m) ∈ Node.forestRows [] [idx.tree]) (h : (path, m) ∈ p.rows q) :
    p.entry q = m.entry path ∨ idx.isAncestor (p.entry q).id (m.entry path).id = true := by
  rw [Node.rows_eq] at h
  rcases List.mem_cons.mp h with he | h
  · cases he
    exact Or.inl rfl
  · right
    rw [isAncestor_iff hd (entry_mem_of_row hm)]
    obtain ⟨between, rfl⟩ := Node.path_of_mem_forestRows h
    exact List.mem_append_right _ List.mem_cons_self

/-- A row whose entry lies above another stands above that one's row. -/
theorem mem_forestRows_of_isAncestor (hd : idx.Distinct) {q path : List NodeId} {p m : Node}
    (hp : (q, p) ∈ Node.forestRows [] [idx.tree]) (hm : (path, m) ∈ Node.forestRows [] [idx.tree])
    (h : idx.isAncestor (p.entry q).id (m.entry path).id = true) :
    (path, m) ∈ Node.forestRows (p.id :: q) p.children := by
  rw [isAncestor_iff hd (entry_mem_of_row hm)] at h
  rcases Node.exists_row_of_mem_path hm h with hnil | ⟨q', k, hk, hid, hbelow⟩
  · cases hnil
  · cases row_eq_of_id_eq hd hk hp hid
    exact hbelow

end Index

/-- The ids in the index of a snapshot are distinct. -/
theorem Snapshot.distinct (s : Snapshot) : s.index.Distinct := by
  rw [s.index_eq]
  exact Index.distinct_ofTree s.parsed.root

/-- No range in the index of a snapshot is inverted. -/
theorem Snapshot.upright (s : Snapshot) : s.index.Upright := by
  rw [s.index_eq]
  exact Index.upright_ofTree s.parsed.root

end GroovyIndex
