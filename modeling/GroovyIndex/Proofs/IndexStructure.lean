import Mathlib.Data.List.MinMax
import Mathlib.Logic.Relation
import GroovyIndex.Proofs.Index

/-!
# Walks and links of an index

A walk with a stack makes the index: a node whose id is listed already is thrown away with
everything below it, and the pre-order of the pruned tree remains. Parents and children name each
other, and the way up from a node takes as many steps as its depth.
-/

namespace GroovyIndex

/-! ### A walk with a stack -/

/-- What a walk has listed so far, and the nodes on its stack, each with the ids above it. -/
structure Walk where
  listed : List Entry
  pending : List (List NodeId × Node)

namespace Walk

/-- Adds ids to the children of the innermost of the given nodes. -/
def adopt (above ids : List NodeId) (listed : List Entry) : List Entry :=
  listed.map fun e =>
    if above.head? = some e.id then { e with children := e.children ++ ids } else e

/-- Takes a node from the stack. Unless its id is listed already, the node is listed, its parent
learns of it, and its children are put on the stack. -/
def step : Walk → Option Walk
  | ⟨_, []⟩ => none
  | ⟨listed, (above, n) :: pending⟩ =>
    if n.id ∈ listed.map Entry.id then some ⟨listed, pending⟩
    else some {
      listed := adopt above [n.id] listed ++
        [⟨n.id, n.kind, n.range.filter (!·.isInverted), [], above⟩]
      pending := n.children.map (n.id :: above, ·) ++ pending }

/-- Steps in a row lead from one state of a walk to another. -/
abbrev Reaches : Walk → Walk → Prop := Relation.ReflTransGen fun w w' => w.step = some w'

/-- A walk that has not begun. -/
def start (root : Node) : Walk := ⟨[], [([], root)]⟩

@[simp]
theorem map_id_adopt (above ids : List NodeId) (listed : List Entry) :
    (adopt above ids listed).map Entry.id = listed.map Entry.id := by
  rw [adopt, List.map_map]
  apply List.map_congr_left
  intro e _
  simp only [Function.comp_apply]
  split <;> rfl

@[simp]
theorem adopt_nil (above : List NodeId) (listed : List Entry) : adopt above [] listed = listed := by
  simp [adopt]

theorem adopt_adopt (above ids ids' : List NodeId) (listed : List Entry) :
    adopt above ids' (adopt above ids listed) = adopt above (ids ++ ids') listed := by
  rw [adopt, adopt, adopt, List.map_map]
  apply List.map_congr_left
  intro e _
  simp only [Function.comp_apply]
  split <;> simp [*]

theorem adopt_append (above ids : List NodeId) (listed more : List Entry) :
    adopt above ids (listed ++ more) = adopt above ids listed ++ adopt above ids more := by
  simp [adopt]

/-- Only an entry with the innermost id learns of the new ids. -/
theorem adopt_of_forall_ne {above ids : List NodeId} {listed : List Entry}
    (h : ∀ e ∈ listed, above.head? ≠ some e.id) : adopt above ids listed = listed := by
  rw [adopt, List.map_congr_left (g := id)]
  · exact List.map_id listed
  · intro e he
    exact if_neg (h e he)

/-- The ids of the entries of a tree are those of its nodes. -/
private theorem map_id_entries (above : List NodeId) (n : Node) :
    (n.entries above).map Entry.id = n.preorder.map Node.id := by
  rw [Node.entries_eq_map_rows, ← Node.map_snd_rows above, List.map_map, List.map_map]
  rfl

/-- A node that is listed without children has its entry once it learns of them. -/
private theorem adopt_children {listed : List Entry} {id : NodeId}
    (h : id ∉ listed.map Entry.id) (kind : Kind) (range : Option Range) (above : List NodeId)
    (kept : Forest) :
    adopt (id :: above) (kept.map Node.id) (listed ++ [⟨id, kind, range, [], above⟩]) ++
        Node.forestEntries (id :: above) kept =
      listed ++ (Node.mk id kind range kept).entries above := by
  have hothers : ∀ e ∈ listed, (id :: above).head? ≠ some e.id := by
    intro e he heq
    rw [Option.some.inj heq] at h
    exact h (List.mem_map_of_mem he)
  rw [adopt_append, adopt_of_forall_ne hothers]
  simp [adopt, Node.entries, Node.entry]

/-- The ids that are taken after a tree are those listed then. -/
private theorem mem_taken_iff {taken : List NodeId} {listed : List Entry}
    (h : ∀ id, id ∈ taken ↔ id ∈ listed.map Entry.id) (above ids : List NodeId) (n : Node)
    (range : Option Range) (id : NodeId) :
    id ∈ (Node.forestPrune (n.id :: taken) n.children).2 ↔
      id ∈ (adopt above ids listed ++ (Node.mk n.id n.kind range
        (Node.forestPrune (n.id :: taken) n.children).1).entries above).map Entry.id := by
  rw [Node.forestPrune_taken, List.map_append, map_id_adopt, map_id_entries, Node.preorder_eq_cons]
  simp only [List.mem_append, List.mem_reverse, List.mem_cons, List.map_cons, h]
  tauto

/-- The ids in a pruned forest were free. -/
private theorem not_mem_of_mem_forestPrune {taken : List NodeId} (h : taken.Nodup) {f : Forest}
    {id : NodeId} (hid : id ∈ (Node.forestPreorder (Node.forestPrune taken f).1).map Node.id) :
    id ∉ taken := by
  have hnodup := Node.nodup_forestPrune_taken h f
  rw [Node.forestPrune_taken, List.nodup_append] at hnodup
  intro hmem
  exact hnodup.2.2 id (List.mem_reverse.mpr hid) id hmem rfl

/-- The walk works off a forest on its stack: what stays is listed, and the parent learns of the
nodes right below it. -/
theorem reaches_forest (f : Forest) {above taken : List NodeId} {listed : List Entry}
    (hnodup : taken.Nodup) (htaken : ∀ id, id ∈ taken ↔ id ∈ listed.map Entry.id)
    (habove : ∀ id ∈ above.head?, id ∈ taken) (pending : List (List NodeId × Node)) :
    Reaches ⟨listed, f.map (above, ·) ++ pending⟩
      ⟨adopt above ((Node.forestPrune taken f).1.map Node.id) listed ++
        Node.forestEntries above (Node.forestPrune taken f).1, pending⟩ := by
  induction f using Forest.induction generalizing above taken listed pending with
  | nil =>
    simp only [Node.forestPrune, Node.forestEntries, List.map_nil, adopt_nil, List.append_nil]
    exact .refl
  | cons n rest ihChildren ihRest =>
    by_cases hn : n.id ∈ taken
    · have hstep : step ⟨listed, (n :: rest).map (above, ·) ++ pending⟩ =
          some ⟨listed, rest.map (above, ·) ++ pending⟩ :=
        if_pos ((htaken n.id).mp hn)
      rw [Node.forestPrune_cons_taken rest hn]
      exact .head hstep (ihRest hnodup htaken habove pending)
    · have hnew : n.id ∉ (adopt above [n.id] listed).map Entry.id := by
        rwa [map_id_adopt, ← htaken]
      have hnodup' : (n.id :: taken).Nodup := List.nodup_cons.mpr ⟨hn, hnodup⟩
      rw [Node.forestPrune_cons_free rest hn]
      generalize hrange : n.range.filter (!·.isInverted) = range
      -- The node is listed without children, then come the nodes below it, then those behind it.
      have hstep : step ⟨listed, (n :: rest).map (above, ·) ++ pending⟩ =
          some ⟨adopt above [n.id] listed ++ [⟨n.id, n.kind, range, [], above⟩],
            n.children.map (n.id :: above, ·) ++ (rest.map (above, ·) ++ pending)⟩ := by
        subst hrange
        exact if_neg (fun h => hn ((htaken n.id).mpr h))
      have hbelow : Reaches ⟨adopt above [n.id] listed ++ [⟨n.id, n.kind, range, [], above⟩],
          n.children.map (n.id :: above, ·) ++ (rest.map (above, ·) ++ pending)⟩ _ :=
        ihChildren hnodup' (by simp [← htaken, or_comm]) (by simp) _
      rw [adopt_children hnew] at hbelow
      have habove' : ∀ id ∈ above.head?, id ∈ (Node.forestPrune (n.id :: taken) n.children).2 := by
        intro id hid
        rw [Node.forestPrune_taken]
        exact List.mem_append_right _ (List.mem_cons_of_mem _ (habove id hid))
      have hbehind := ihRest (Node.nodup_forestPrune_taken hnodup' n.children)
        (mem_taken_iff htaken above [n.id] n range) habove' pending
      have hothers : ∀ e ∈ (Node.mk n.id n.kind range
          (Node.forestPrune (n.id :: taken) n.children).1).entries above,
          above.head? ≠ some e.id := by
        intro e he heq
        have hid := List.mem_map_of_mem (f := Entry.id) he
        rw [map_id_entries, Node.preorder_eq_cons, List.map_cons, List.mem_cons] at hid
        rcases hid with hid | hid
        · exact hn (hid ▸ habove e.id heq)
        · exact not_mem_of_mem_forestPrune hnodup' hid (List.mem_cons_of_mem _ (habove e.id heq))
      rw [adopt_append, adopt_adopt, adopt_of_forall_ne hothers, List.append_assoc] at hbehind
      exact .head hstep (hbelow.trans hbehind)

/-- A walk over a tree ends with the entries of its index. -/
theorem reaches_entries (root : Node) : Reaches (start root) ⟨(Index.ofTree root).entries, []⟩ := by
  have h : Reaches ⟨[], [root].map ([], ·) ++ []⟩ _ :=
    reaches_forest [root] List.nodup_nil (by simp) (by simp) []
  have hpruned : (Node.forestPrune [] [root]).1 = [root.pruned] := by
    simp [Node.forestPrune, Node.prune_nil]
  rw [hpruned] at h
  simpa [start, adopt, Node.forestEntries, Index.ofTree] using h

end Walk

/-! ### What pruning keeps of a node -/

/-- The first node is what is left of the second: a part of its children in the same order, and its
range unless that is inverted. -/
structure Node.IsRestOf (m n : Node) : Prop where
  id_eq : m.id = n.id
  kind_eq : m.kind = n.kind
  range_eq : m.range = n.range.filter (!·.isInverted)
  children_sublist : (m.children.map Node.id).Sublist (n.children.map Node.id)

namespace Node

/-- The trees that stay in a forest keep their order. -/
theorem map_id_forestPrune_sublist (taken : List NodeId) (f : Forest) :
    ((forestPrune taken f).1.map Node.id).Sublist (f.map Node.id) := by
  induction f generalizing taken with
  | nil => simp [forestPrune]
  | cons n rest ih =>
    by_cases hn : n.id ∈ taken
    · rw [forestPrune_cons_taken rest hn]
      exact (ih taken).cons n.id
    · rw [forestPrune_cons_free rest hn]
      exact (ih _).cons_cons n.id

/-- Each node of a pruned forest is what is left of a node of the forest. -/
theorem exists_isRestOf_of_mem_forestPrune {taken : List NodeId} {f : Forest} {m : Node}
    (h : m ∈ forestPreorder (forestPrune taken f).1) : ∃ n ∈ forestPreorder f, m.IsRestOf n := by
  induction f using Forest.induction generalizing taken with
  | nil => simp [forestPrune, forestPreorder] at h
  | cons n rest ihChildren ihRest =>
    rw [forestPreorder_cons]
    by_cases hn : n.id ∈ taken
    · rw [forestPrune_cons_taken rest hn] at h
      obtain ⟨k, hk, hrest⟩ := ihRest h
      exact ⟨k, List.mem_cons_of_mem _ (List.mem_append_right _ hk), hrest⟩
    · rw [forestPrune_cons_free rest hn, forestPreorder_cons] at h
      rcases List.mem_cons.mp h with rfl | h
      · exact ⟨n, List.mem_cons_self, rfl, rfl, rfl, map_id_forestPrune_sublist _ _⟩
      · rcases List.mem_append.mp h with h | h
        · obtain ⟨k, hk, hrest⟩ := ihChildren h
          exact ⟨k, List.mem_cons_of_mem _ (List.mem_append_left _ hk), hrest⟩
        · obtain ⟨k, hk, hrest⟩ := ihRest h
          exact ⟨k, List.mem_cons_of_mem _ (List.mem_append_right _ hk), hrest⟩

/-- Each node of a pruned tree is what is left of a node of the tree. -/
theorem exists_isRestOf_of_mem_pruned {root m : Node} (h : m ∈ root.pruned.preorder) :
    ∃ n ∈ root.preorder, m.IsRestOf n := by
  have hpruned : (forestPrune [] [root]).1 = [root.pruned] := by
    simp [forestPrune, prune_nil]
  rw [← forestPreorder_singleton, ← hpruned] at h
  rw [← forestPreorder_singleton]
  exact exists_isRestOf_of_mem_forestPrune h

end Node

namespace Index

variable {idx : Index}

/-! ### Children and parents -/

/-- Nothing stands above the root. -/
theorem ancestors_root (hd : idx.Distinct) : idx.ancestors idx.root.id = [] := by
  rw [ancestors, get?_of_mem hd idx.root_mem]
  rfl

/-- The node right above an entry is found exactly if it is its parent. -/
theorem parent?_eq_some_iff (hd : idx.Distinct) {p e : Entry} (he : e ∈ idx.entries) :
    idx.parent? e.id = some p ↔ idx.IsParent p e := by
  constructor
  · intro h
    rcases root_or_parent he with rfl | ⟨q, hq, -⟩
    · rw [parent?, ancestors_root hd] at h
      cases h
    · rw [hq.parent?_eq hd] at h
      cases h
      exact hq
  · intro h
    exact h.parent?_eq hd

/-- Only the root has nothing right above it. -/
theorem parent?_eq_none_iff (hd : idx.Distinct) {e : Entry} (he : e ∈ idx.entries) :
    idx.parent? e.id = none ↔ e = idx.root := by
  constructor
  · intro h
    rcases root_or_parent he with hroot | ⟨p, hp, -⟩
    · exact hroot
    · rw [hp.parent?_eq hd] at h
      cases h
  · rintro rfl
    rw [parent?, ancestors_root hd]
    rfl

/-- Right below the node of a row stand its children. -/
theorem children_of_row (hd : idx.Distinct) {path : List NodeId} {n : Node}
    (h : (path, n) ∈ Node.forestRows [] [idx.tree]) :
    idx.children n.id = n.children.map (Node.entry (n.id :: path)) := by
  have hget : idx.get? n.id = some (n.entry path) := get?_of_mem hd (entry_mem_of_row h)
  simp only [children, hget, Node.entry, List.filterMap_map]
  rw [← List.filterMap_eq_map]
  apply List.filterMap_congr
  intro c hc
  exact get?_of_mem hd (entry_mem_of_row (Node.child_mem_forestRows h hc))

private theorem map_sublist_forestRows (above : List NodeId) (f : Forest) :
    (f.map (above, ·)).Sublist (Node.forestRows above f) := by
  induction f with
  | nil => simp
  | cons n rest ih =>
    rw [Node.forestRows_cons]
    exact (ih.trans (List.sublist_append_right _ _)).cons_cons _

/-- The children of an entry come in the order of the index. -/
theorem children_sublist_entries (hd : idx.Distinct) {p : Entry} (hp : p ∈ idx.entries) :
    (idx.children p.id).Sublist idx.entries := by
  obtain ⟨path, n, hrow, rfl⟩ := exists_row_of_mem hp
  have hrows := ((map_sublist_forestRows _ _).trans (Node.forestRows_sublist_of_mem hrow)).map
    fun row => row.2.entry row.1
  rw [List.map_map, ← entries_eq_map_rows] at hrows
  exact children_of_row hd hrow ▸ hrows

/-- An entry stands once among the children of its parent, and not among those of another. -/
theorem count_children (hd : idx.Distinct) {p c : Entry} (hp : p ∈ idx.entries)
    (hc : c ∈ idx.entries) :
    (idx.children p.id).count c = if idx.parent? c.id = some p then 1 else 0 := by
  have hnodup := (children_sublist_entries hd hp).nodup (List.Nodup.of_map _ hd)
  rw [hnodup.count]
  exact if_congr ((mem_children_iff hd hp).trans (parent?_eq_some_iff hd hc).symm) rfl rfl

/-! ### The way up -/

/-- An entry is one level below its parent. -/
theorem IsParent.depth_eq {p e : Entry} (h : idx.IsParent p e) : e.depth = p.depth + 1 := by
  rw [Entry.depth, h.2.2]
  rfl

/-- As many nodes stand above an entry as it has levels above it. -/
theorem length_ancestors (hd : idx.Distinct) {e : Entry} (he : e ∈ idx.entries) :
    (idx.ancestors e.id).length = e.depth := by
  refine induction_down (motive := fun e => (idx.ancestors e.id).length = e.depth) ?_ ?_ he
  · rw [ancestors_root hd]
    rfl
  · intro p e hp ih
    rw [hp.ancestors_eq hd, hp.depth_eq, List.length_cons, ih]

/-- What stands above an entry has a smaller depth. -/
theorem depth_lt_of_mem_ancestors (hd : idx.Distinct) {a e : Entry} (he : e ∈ idx.entries)
    (ha : a ∈ idx.ancestors e.id) : a.depth < e.depth := by
  refine induction_down (motive := fun e => a ∈ idx.ancestors e.id → a.depth < e.depth) ?_ ?_ he ha
  · intro ha
    simp [ancestors_root hd] at ha
  · intro p e hp ih ha
    rw [hp.ancestors_eq hd] at ha
    rw [hp.depth_eq]
    rcases List.mem_cons.mp ha with rfl | ha
    · exact Nat.lt_succ_self _
    · exact Nat.lt_succ_of_lt (ih ha)

/-- The depths fall on the way up. -/
theorem pairwise_depth_ancestors (hd : idx.Distinct) {e : Entry} (he : e ∈ idx.entries) :
    (idx.ancestors e.id).Pairwise fun a b => b.depth < a.depth := by
  refine induction_down
    (motive := fun e => (idx.ancestors e.id).Pairwise fun a b => b.depth < a.depth) ?_ ?_ he
  · rw [ancestors_root hd]
    exact List.Pairwise.nil
  · intro p e hp ih
    rw [hp.ancestors_eq hd]
    exact List.pairwise_cons.mpr ⟨fun a ha => depth_lt_of_mem_ancestors hd hp.1 ha, ih⟩

/-- The way up from any entry but the root ends at the root. -/
theorem getLast?_ancestors (hd : idx.Distinct) {e : Entry} (he : e ∈ idx.entries)
    (hne : e ≠ idx.root) : (idx.ancestors e.id).getLast? = some idx.root := by
  refine induction_down
    (motive := fun e => e ≠ idx.root → (idx.ancestors e.id).getLast? = some idx.root) ?_ ?_ he hne
  · intro hne
    exact absurd rfl hne
  · intro p e hp ih _
    rw [hp.ancestors_eq hd]
    by_cases hroot : p = idx.root
    · rw [hroot, ancestors_root hd]
      rfl
    · rw [List.getLast?_cons, ih hroot]
      rfl

/-- The greatest depth of a node. -/
def maxDepth (idx : Index) : Nat := (idx.entries.map Entry.depth).foldr max 0

/-- The nodes that are met from parent to parent, in at most so many steps. -/
def climb (idx : Index) : Nat → NodeId → List Entry
  | 0, _ => []
  | bound + 1, id =>
    match idx.parent? id with
    | some p => p :: idx.climb bound p.id
    | none => []

/-- A climb meets the nodes above an entry until its steps are used up. -/
theorem climb_eq_take (hd : idx.Distinct) {e : Entry} (he : e ∈ idx.entries) (bound : Nat) :
    idx.climb bound e.id = (idx.ancestors e.id).take bound := by
  induction bound generalizing e with
  | zero => rfl
  | succ bound ih =>
    rcases root_or_parent he with rfl | ⟨p, hp, -⟩
    · rw [climb, (parent?_eq_none_iff hd he).mpr rfl, ancestors_root hd]
      rfl
    · rw [climb, hp.parent?_eq hd, hp.ancestors_eq hd, List.take_succ_cons, ← ih hp.1]

/-- No entry is deeper than the greatest depth. -/
theorem depth_le_maxDepth {e : Entry} (he : e ∈ idx.entries) : e.depth ≤ idx.maxDepth :=
  List.le_max_of_le' 0 (List.mem_map_of_mem he) le_rfl

/-- One step more than the greatest depth is enough for any climb. -/
theorem climb_maxDepth (hd : idx.Distinct) (id : NodeId) :
    idx.climb (idx.maxDepth + 1) id = idx.ancestors id := by
  cases hget : idx.get? id with
  | none => simp [climb, parent?, ancestors, hget]
  | some e =>
    obtain ⟨he, rfl⟩ := mem_of_get? hget
    have hdepth := depth_le_maxDepth he
    rw [climb_eq_take hd he, List.take_of_length_le]
    rw [length_ancestors hd he]
    omega

/-! ### Above and below -/

/-- What has a node above it is an entry. -/
theorem exists_mem_of_isAncestor {above below : NodeId} (h : idx.isAncestor above below = true) :
    ∃ e ∈ idx.entries, e.id = below := by
  cases hget : idx.get? below with
  | none => simp [isAncestor, ancestors, hget] at h
  | some e => exact ⟨e, mem_of_get? hget⟩

/-- A node lies above another exactly if the tree has the second one somewhere below the first. -/
theorem isAncestor_iff_below (hd : idx.Distinct) (above below : NodeId) :
    idx.isAncestor above below = true ↔
      ∃ a ∈ idx.tree.preorder, a.id = above ∧
        ∃ b ∈ Node.forestPreorder a.children, b.id = below := by
  constructor
  · intro h
    obtain ⟨e, he, rfl⟩ := exists_mem_of_isAncestor h
    obtain ⟨path, b, hrow, rfl⟩ := exists_row_of_mem he
    rw [isAncestor_iff hd he] at h
    rcases Node.exists_row_of_mem_path hrow h with hnil | ⟨q, a, ha, rfl, hbelow⟩
    · cases hnil
    · refine ⟨a, ?_, rfl, b, ?_, rfl⟩
      · rw [← Node.forestPreorder_singleton, ← Node.map_snd_forestRows []]
        exact List.mem_map_of_mem ha
      · rw [← Node.map_snd_forestRows (a.id :: q)]
        exact List.mem_map_of_mem hbelow
  · rintro ⟨a, ha, rfl, b, hb, rfl⟩
    rw [← Node.forestPreorder_singleton, ← Node.map_snd_forestRows []] at ha
    obtain ⟨⟨q, a⟩, hrow, rfl⟩ := List.mem_map.mp ha
    rw [← Node.map_snd_forestRows (a.id :: q)] at hb
    obtain ⟨⟨path, b⟩, hbelow, rfl⟩ := List.mem_map.mp hb
    have hb := entry_mem_of_row ((Node.forestRows_sublist_of_mem hrow).subset hbelow)
    obtain ⟨between, rfl⟩ := Node.path_of_mem_forestRows hbelow
    exact (isAncestor_iff hd hb).mpr (List.mem_append_right _ List.mem_cons_self)

/-- No node lies above itself. -/
theorem isAncestor_irrefl (hd : idx.Distinct) (id : NodeId) : idx.isAncestor id id = false := by
  by_contra h
  rw [Bool.not_eq_false] at h
  obtain ⟨e, he, rfl⟩ := exists_mem_of_isAncestor h
  obtain ⟨a, ha, hid⟩ := List.any_eq_true.mp h
  have hlt := depth_lt_of_mem_ancestors hd he ha
  rw [eq_of_id_eq hd (mem_of_mem_ancestors ha) he (beq_iff_eq.mp hid)] at hlt
  exact Nat.lt_irrefl _ hlt

/-- What lies above a node lies above all that is below that node. -/
theorem isAncestor_trans (hd : idx.Distinct) {a b c : NodeId} (hab : idx.isAncestor a b = true)
    (hbc : idx.isAncestor b c = true) : idx.isAncestor a c = true := by
  obtain ⟨e, he, rfl⟩ := exists_mem_of_isAncestor hab
  obtain ⟨f, hf, rfl⟩ := exists_mem_of_isAncestor hbc
  obtain ⟨q, m, hm, rfl⟩ := exists_row_of_mem he
  obtain ⟨path, n, hn, rfl⟩ := exists_row_of_mem hf
  have hbelow := mem_forestRows_of_isAncestor hd hm hn hbc
  obtain ⟨between, rfl⟩ := Node.path_of_mem_forestRows hbelow
  rw [isAncestor_iff hd he] at hab
  rw [isAncestor_iff hd hf]
  exact List.mem_append_right _ (List.mem_cons_of_mem _ hab)

/-! ### The index of a tree -/

/-- Parents and children name each other, and a child is one level below its parent. -/
structure Linked (idx : Index) : Prop where
  count_children : ∀ p ∈ idx.entries, ∀ c ∈ idx.entries,
    (idx.children p.id).count c = if idx.parent? c.id = some p then 1 else 0
  map_id_children : ∀ p ∈ idx.entries, (idx.children p.id).map Entry.id = p.children
  parent?_root : idx.parent? idx.root.id = none
  existsUnique_parent : ∀ c ∈ idx.entries, c ≠ idx.root →
    ∃! p, p ∈ idx.entries ∧ c ∈ idx.children p.id
  depth_root : idx.root.depth = 0
  depth_parent : ∀ c ∈ idx.entries, ∀ p, idx.parent? c.id = some p → c.depth = p.depth + 1

/-- The way up by parents is never cut short, and it tells what lies above a node. -/
structure Climbs (idx : Index) : Prop where
  climb_maxDepth : ∀ id, idx.climb (idx.maxDepth + 1) id = idx.ancestors id
  length_ancestors : ∀ e ∈ idx.entries, (idx.ancestors e.id).length = e.depth
  depths_fall : ∀ e ∈ idx.entries, (idx.ancestors e.id).Pairwise fun a b => b.depth < a.depth
  ends_at_root : ∀ e ∈ idx.entries, e ≠ idx.root →
    (idx.ancestors e.id).getLast? = some idx.root
  isAncestor_iff_below : ∀ above below, idx.isAncestor above below = true ↔
    ∃ a ∈ idx.tree.preorder, a.id = above ∧ ∃ b ∈ Node.forestPreorder a.children, b.id = below
  irrefl : ∀ id, idx.isAncestor id id = false
  trans : ∀ a b c, idx.isAncestor a b = true → idx.isAncestor b c = true →
    idx.isAncestor a c = true

theorem Distinct.linked (hd : idx.Distinct) : idx.Linked where
  count_children p hp c hc := count_children hd hp hc
  map_id_children p hp := by
    obtain ⟨path, n, hrow, rfl⟩ := exists_row_of_mem hp
    change (idx.children n.id).map Entry.id = n.children.map Node.id
    rw [children_of_row hd hrow, List.map_map]
    rfl
  parent?_root := (parent?_eq_none_iff hd idx.root_mem).mpr rfl
  existsUnique_parent c hc hne := by
    rcases root_or_parent hc with hroot | ⟨p, hp, -⟩
    · exact absurd hroot hne
    · refine ⟨p, ⟨hp.1, (mem_children_iff hd hp.1).mpr hp⟩, ?_⟩
      rintro q ⟨hq, hmem⟩
      exact ((mem_children_iff hd hq).mp hmem).unique hd hp
  depth_root := rfl
  depth_parent c hc p hp := ((parent?_eq_some_iff hd hc).mp hp).depth_eq

theorem Distinct.climbs (hd : idx.Distinct) : idx.Climbs where
  climb_maxDepth := climb_maxDepth hd
  length_ancestors _ he := length_ancestors hd he
  depths_fall _ he := pairwise_depth_ancestors hd he
  ends_at_root _ he := getLast?_ancestors hd he
  isAncestor_iff_below := isAncestor_iff_below hd
  irrefl := isAncestor_irrefl hd
  trans _ _ _ := isAncestor_trans hd

/-- The index of any tree lists the nodes that a walk keeps, in pre-order, with distinct ids and
complete links. -/
theorem ofTree_wellFormed (root : Node) :
    Walk.Reaches (.start root) ⟨(ofTree root).entries, []⟩ ∧
    (ofTree root).entries.map (fun e => (e.id, e.kind, e.range, e.children)) =
      root.pruned.preorder.map (fun n => (n.id, n.kind, n.range, n.children.map Node.id)) ∧
    (∀ m ∈ root.pruned.preorder, ∃ n ∈ root.preorder, m.IsRestOf n) ∧
    ((ofTree root).entries.map Entry.id).Nodup ∧
    (∀ id e, (ofTree root).get? id = some e ↔ e ∈ (ofTree root).entries ∧ e.id = id) ∧
    (ofTree root).Linked ∧ (ofTree root).Climbs := by
  have hd := distinct_ofTree root
  refine ⟨Walk.reaches_entries root, ?_, fun m => Node.exists_isRestOf_of_mem_pruned, hd, ?_,
    hd.linked, hd.climbs⟩
  · rw [(ofTree root).entries_eq, Node.entries_eq_map_rows, List.map_map]
    change _ = (ofTree root).tree.preorder.map _
    rw [← Node.map_snd_rows [], List.map_map]
    rfl
  · intro id e
    constructor
    · exact mem_of_get?
    · rintro ⟨he, rfl⟩
      exact get?_of_mem hd he

end Index

end GroovyIndex
