import GroovyIndex.Edit
import GroovyIndex.Proofs.Relabel

/-!
# Trees after edits

An edit that starts where the identifier of a node starts gives the node a new name. After edits a
tree has its ids and ranges as before. If ids are distinct in it and no range is inverted, then its
new index lists the entries of the old one under new names.
-/

namespace GroovyIndex

/-- The new name of a node: the text of the edit that starts where the identifier does. -/
def newName? (edits : List TextEdit) (kind : Kind) (range : Option Range) : Option String := do
  let identifier ← kind.nameRange? <|> range
  let edit ← edits.find? (·.range.start == identifier.start)
  return edit.newText

namespace Node

mutual
/-- The tree after edits. -/
def edited (edits : List TextEdit) : Node → Node
  | ⟨id, kind, range, children⟩ =>
    ⟨id, kind.relabel (newName? edits kind range), range, forestEdited edits children⟩
/-- The forest after edits. -/
def forestEdited (edits : List TextEdit) : Forest → Forest
  | [] => []
  | n :: rest => n.edited edits :: forestEdited edits rest
end

/-- Every node has a range that is not inverted, no two nodes have one id, and no two nodes with a
name start their identifiers at one position. -/
structure Regular (root : Node) : Prop where
  ids : (root.preorder.map Node.id).Nodup
  ranges : ∀ n ∈ root.preorder, ∃ r ∈ n.range, r.isInverted = false
  starts : ∀ m ∈ root.preorder, ∀ n ∈ root.preorder, m.kind.name?.isSome → n.kind.name?.isSome →
    (m.kind.nameRange? <|> m.range).map Range.start =
      (n.kind.nameRange? <|> n.range).map Range.start → m.id = n.id

variable (edits : List TextEdit)

private theorem edited_eq (n : Node) :
    n.edited edits = ⟨n.id, n.kind.relabel (newName? edits n.kind n.range), n.range,
      forestEdited edits n.children⟩ := by
  cases n
  rw [edited]

@[simp]
theorem id_edited (n : Node) : (n.edited edits).id = n.id := by
  rw [edited_eq]

@[simp]
theorem range_edited (n : Node) : (n.edited edits).range = n.range := by
  rw [edited_eq]

@[simp]
theorem children_edited (n : Node) : (n.edited edits).children = n.children.map (edited edits) := by
  have hmap (f : Forest) : forestEdited edits f = f.map (edited edits) := by
    induction f with
    | nil => rw [forestEdited, List.map_nil]
    | cons n rest ih => rw [forestEdited, List.map_cons, ih]
  rw [edited_eq, hmap]

/-- The rows of a forest after edits are its rows, with their nodes after edits. -/
theorem forestRows_edited (above : List NodeId) (f : Forest) :
    forestRows above (f.map (edited edits)) =
      (forestRows above f).map fun row => (row.1, row.2.edited edits) := by
  induction f using Forest.induction generalizing above with
  | nil => rw [List.map_nil, forestRows_nil, List.map_nil]
  | cons n rest ihChildren ihRest =>
    rw [List.map_cons, forestRows_cons, forestRows_cons, id_edited, children_edited, ihChildren,
      ihRest, List.map_cons, List.map_append]

/-- The nodes of a tree after edits are its nodes after edits. -/
theorem preorder_edited (root : Node) :
    (root.edited edits).preorder = root.preorder.map (edited edits) := by
  have hrows := forestRows_edited edits [] [root]
  rw [List.map_cons, List.map_nil, forestRows_singleton, forestRows_singleton] at hrows
  rw [← map_snd_rows [], hrows, ← map_snd_rows [] root, List.map_map, List.map_map]
  rfl

private theorem Regular.not_inverted {root : Node} (h : root.Regular) {n : Node}
    (hn : n ∈ root.preorder) {r : Range} (hr : n.range = some r) : r.isInverted = false := by
  obtain ⟨r', hr', hinv⟩ := h.ranges n hn
  rw [hr] at hr'
  cases hr'
  exact hinv

/-- A regular tree is not pruned. -/
theorem Regular.pruned_eq {root : Node} (h : root.Regular) : root.pruned = root :=
  pruned_eq_self h.ids fun _ hn _ hr => h.not_inverted hn hr

/-- A regular tree is not pruned after edits. -/
theorem Regular.pruned_edited_eq {root : Node} (h : root.Regular) :
    (root.edited edits).pruned = root.edited edits := by
  apply pruned_eq_self
  · rw [preorder_edited, List.map_map]
    have hid : Node.id ∘ edited edits = Node.id := by
      funext n
      exact id_edited edits n
    rw [hid]
    exact h.ids
  · intro m hm r hr
    rw [preorder_edited] at hm
    obtain ⟨n, hn, rfl⟩ := List.mem_map.mp hm
    rw [range_edited] at hr
    exact h.not_inverted hn hr

end Node

namespace Snapshot

/-- The document after edits, indexed anew. -/
def edited (s : Snapshot) (edits : List TextEdit) : Snapshot :=
  .ofParsed { s.parsed with root := s.parsed.root.edited edits } s.generation

/-- The new names that edits give to the nodes of a document. -/
def editLabels (s : Snapshot) (edits : List TextEdit) : Labels := fun id =>
  (s.index.get? id).bind fun e => newName? edits e.kind e.range

variable {s : Snapshot} {edits : List TextEdit}

theorem editLabels_of_mem {e : Entry} (he : e ∈ s.index.entries) :
    s.editLabels edits e.id = newName? edits e.kind e.range := by
  rw [editLabels, Index.get?_of_mem s.distinct he, Option.bind_some]

/-- The new name of a node is the text of the edit that starts where its identifier does. -/
theorem editLabels_of_nameRange? {e : Entry} (he : e ∈ s.index.entries) {range : Range}
    (hrange : e.nameRange? = some range) :
    s.editLabels edits e.id =
      (edits.find? (·.range.start == range.start)).map TextEdit.newText := by
  have hidentifier : (e.kind.nameRange? <|> e.range) = some range := hrange
  rw [editLabels_of_mem he, newName?, hidentifier]
  cases hf : edits.find? (·.range.start == range.start) <;> simp [hf]

/-- The index of a regular document keeps its tree. -/
private theorem tree_eq (h : s.parsed.root.Regular) : s.index.tree = s.parsed.root := by
  rw [s.index_eq]
  exact h.pruned_eq

private theorem exists_node_of_mem (h : s.parsed.root.Regular) {e : Entry}
    (he : e ∈ s.index.entries) : ∃ n ∈ s.parsed.root.preorder, ∃ path, e = n.entry path := by
  rw [← tree_eq h]
  exact Index.exists_node_of_mem he

/-- In a regular document every node has its entry. -/
theorem exists_entry_of_mem_preorder (h : s.parsed.root.Regular) {n : Node}
    (hn : n ∈ s.parsed.root.preorder) : ∃ e ∈ s.index.entries, e.id = n.id := by
  rw [← Node.map_snd_rows []] at hn
  obtain ⟨⟨path, m⟩, hrow, rfl⟩ := List.mem_map.mp hn
  rw [← Node.forestRows_singleton, ← tree_eq h] at hrow
  exact ⟨m.entry path, Index.entry_mem_of_row hrow, rfl⟩

/-- In a regular tree every node has an identifier range. -/
theorem exists_nameRange? (h : s.parsed.root.Regular) {e : Entry} (he : e ∈ s.index.entries) :
    ∃ range, e.nameRange? = some range := by
  obtain ⟨n, hn, path, rfl⟩ := exists_node_of_mem h he
  obtain ⟨range, hrange, -⟩ := h.ranges n hn
  exact Entry.exists_nameRange? hrange

/-- In a regular tree no two nodes with a name start their identifiers together. -/
theorem eq_of_nameRange?_start (h : s.parsed.root.Regular) {e e' : Entry} (he : e ∈ s.index.entries)
    (he' : e' ∈ s.index.entries) (hname : e.name?.isSome = true) (hname' : e'.name?.isSome = true)
    (hstart : e.nameRange?.map Range.start = e'.nameRange?.map Range.start) : e = e' := by
  obtain ⟨n, hn, path, rfl⟩ := exists_node_of_mem h he
  obtain ⟨n', hn', path', rfl⟩ := exists_node_of_mem h he'
  exact Index.eq_of_id_eq s.distinct he he' (h.starts n hn n' hn' hname hname' hstart)

/-- The index after edits lists the entries under their new names. -/
theorem relabels_edited (h : s.parsed.root.Regular) :
    s.index.Relabels (s.editLabels edits) (s.edited edits).index := by
  have htree := tree_eq h
  have htree' : (s.edited edits).index.tree = s.parsed.root.edited edits := h.pruned_edited_eq edits
  have hrows := Node.forestRows_edited edits [] [s.parsed.root]
  rw [List.map_cons, List.map_nil] at hrows
  rw [Index.Relabels, Index.entries_eq_map_rows (s.edited edits).index, htree', hrows, List.map_map]
  have hentries := s.index.entries_eq_map_rows
  rw [htree] at hentries
  rw [hentries, List.map_map]
  apply List.map_congr_left
  rintro ⟨path, n⟩ hrow
  have hmem : n.entry path ∈ s.index.entries := by
    rw [hentries]
    exact List.mem_map.mpr ⟨(path, n), hrow, rfl⟩
  have hlabel : s.editLabels edits n.id = newName? edits n.kind n.range := editLabels_of_mem hmem
  simp only [Function.comp_apply]
  have hchildren : (n.edited edits).children.map Node.id = n.children.map Node.id := by
    rw [Node.children_edited, List.map_map]
    exact List.map_congr_left fun m _ => Node.id_edited edits m
  rw [Node.entry, hchildren]
  simp only [Node.entry, Entry.relabel, hlabel, Node.edited_eq]

end Snapshot

end GroovyIndex
