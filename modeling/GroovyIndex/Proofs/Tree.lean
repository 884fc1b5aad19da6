import GroovyIndex.Index.Entry

/-!
# Rows of a tree and pruning

A row is a node with the ids of the nodes above it, innermost first; the rows of a forest come in
pre-order. Below a row stand the rows of its children, and above it the row of its parent. Pruning
leaves every id once and no inverted range.
-/

namespace GroovyIndex

/-- Induction over forests: a property of the children of a tree and of the trees behind it holds
of both together. -/
@[elab_as_elim]
theorem Forest.induction {motive : Forest → Prop} (nil : motive [])
    (cons : ∀ (n : Node) (rest : Forest), motive n.children → motive rest → motive (n :: rest)) :
    ∀ f : Forest, motive f
  | [] => nil
  | ⟨id, kind, range, children⟩ :: rest =>
    cons ⟨id, kind, range, children⟩ rest (Forest.induction nil cons children)
      (Forest.induction nil cons rest)

namespace Node

/-! ### Rows -/

mutual
/-- Every node of a tree with the ids above it, in pre-order. -/
def rows (above : List NodeId) : Node → List (List NodeId × Node)
  | n@⟨id, _, _, children⟩ => (above, n) :: forestRows (id :: above) children
/-- Every node of a forest with the ids above it, in pre-order. -/
def forestRows (above : List NodeId) : Forest → List (List NodeId × Node)
  | [] => []
  | n :: rest => n.rows above ++ forestRows above rest
end

theorem rows_eq (above : List NodeId) (n : Node) :
    n.rows above = (above, n) :: forestRows (n.id :: above) n.children := by
  cases n
  rw [rows]

@[simp]
theorem forestRows_nil (above : List NodeId) : forestRows above [] = [] := by
  rw [forestRows]

@[simp]
theorem forestRows_cons (above : List NodeId) (n : Node) (rest : Forest) :
    forestRows above (n :: rest) =
      (above, n) :: (forestRows (n.id :: above) n.children ++ forestRows above rest) := by
  rw [forestRows, rows_eq, List.cons_append]

/-- The rows of a tree by itself. -/
theorem forestRows_singleton (above : List NodeId) (n : Node) :
    forestRows above [n] = n.rows above := by
  rw [forestRows, forestRows_nil, List.append_nil]

theorem entries_eq_cons (above : List NodeId) (n : Node) :
    n.entries above = n.entry above :: forestEntries (n.id :: above) n.children := by
  cases n
  rw [entries]

/-- The entries of a forest are its rows, as an index lists them. -/
theorem forestEntries_eq (above : List NodeId) (f : Forest) :
    forestEntries above f = (forestRows above f).map fun row => row.2.entry row.1 := by
  induction f using Forest.induction generalizing above with
  | nil => rw [forestEntries, forestRows_nil, List.map_nil]
  | cons n rest ihChildren ihRest =>
    rw [forestEntries, entries_eq_cons, forestRows_cons, ihChildren, ihRest]
    simp only [List.cons_append, List.map_cons, List.map_append]

/-- The entries of a tree are its rows, as an index lists them. -/
theorem entries_eq_map_rows (above : List NodeId) (n : Node) :
    n.entries above = (n.rows above).map fun row => row.2.entry row.1 := by
  rw [entries_eq_cons, rows_eq, List.map_cons, forestEntries_eq]

theorem preorder_eq_cons (n : Node) : n.preorder = n :: forestPreorder n.children := by
  cases n
  rw [preorder]

theorem forestPreorder_cons (n : Node) (rest : Forest) :
    forestPreorder (n :: rest) = n :: (forestPreorder n.children ++ forestPreorder rest) := by
  rw [forestPreorder, preorder_eq_cons, List.cons_append]

theorem forestPreorder_singleton (n : Node) : forestPreorder [n] = n.preorder := by
  rw [forestPreorder, forestPreorder, List.append_nil]

/-- The nodes of the rows of a forest are its nodes in pre-order. -/
theorem map_snd_forestRows (above : List NodeId) (f : Forest) :
    (forestRows above f).map Prod.snd = forestPreorder f := by
  induction f using Forest.induction generalizing above with
  | nil => rw [forestRows_nil, forestPreorder, List.map_nil]
  | cons n rest ihChildren ihRest =>
    rw [forestRows_cons, forestPreorder_cons, List.map_cons, List.map_append, ihChildren, ihRest]

/-- The nodes of the rows of a tree are its nodes in pre-order. -/
theorem map_snd_rows (above : List NodeId) (n : Node) :
    (n.rows above).map Prod.snd = n.preorder := by
  rw [rows_eq, preorder_eq_cons, List.map_cons, map_snd_forestRows]

/-- Each tree of a forest has its row. -/
theorem mem_forestRows_of_mem {above : List NodeId} {f : Forest} {n : Node} (h : n ∈ f) :
    (above, n) ∈ forestRows above f := by
  induction f with
  | nil => cases h
  | cons m rest ih =>
    rw [forestRows_cons]
    cases h with
    | head => exact List.mem_cons_self
    | tail _ h => exact List.mem_cons_of_mem _ (List.mem_append_right _ (ih h))

/-- Below a row stand the rows of its children. -/
theorem child_mem_forestRows {above path : List NodeId} {f : Forest} {m c : Node}
    (h : (path, m) ∈ forestRows above f) (hc : c ∈ m.children) :
    (m.id :: path, c) ∈ forestRows above f := by
  induction f using Forest.induction generalizing above with
  | nil => simp at h
  | cons n rest ihChildren ihRest =>
    rw [forestRows_cons] at h ⊢
    apply List.mem_cons_of_mem
    rcases List.mem_cons.mp h with he | h
    · obtain ⟨rfl, rfl⟩ := Prod.mk.inj he
      exact List.mem_append_left _ (mem_forestRows_of_mem hc)
    · rcases List.mem_append.mp h with h | h
      · exact List.mem_append_left _ (ihChildren h)
      · exact List.mem_append_right _ (ihRest h)

/-- Above a row stands the row of its parent, unless it is one of the outermost. -/
theorem mem_forestRows_cases {above path : List NodeId} {f : Forest} {m : Node}
    (h : (path, m) ∈ forestRows above f) :
    path = above ∧ m ∈ f ∨
      ∃ q p, (q, p) ∈ forestRows above f ∧ m ∈ p.children ∧ path = p.id :: q := by
  induction f using Forest.induction generalizing above with
  | nil => simp at h
  | cons n rest ihChildren ihRest =>
    rw [forestRows_cons] at h ⊢
    rcases List.mem_cons.mp h with he | h
    · obtain ⟨rfl, rfl⟩ := Prod.mk.inj he
      exact Or.inl ⟨rfl, List.mem_cons_self⟩
    · rcases List.mem_append.mp h with h | h
      · rcases ihChildren h with ⟨rfl, hm⟩ | ⟨q, p, hp, hm, rfl⟩
        · exact Or.inr ⟨above, n, List.mem_cons_self, hm, rfl⟩
        · exact Or.inr ⟨q, p, List.mem_cons_of_mem _ (List.mem_append_left _ hp), hm, rfl⟩
      · rcases ihRest h with ⟨rfl, hm⟩ | ⟨q, p, hp, hm, rfl⟩
        · exact Or.inl ⟨rfl, List.mem_cons_of_mem _ hm⟩
        · exact Or.inr ⟨q, p, List.mem_cons_of_mem _ (List.mem_append_right _ hp), hm, rfl⟩

/-- The rows at and below a row are rows of the forest, in the same order. -/
theorem rows_sublist_of_mem {above q : List NodeId} {f : Forest} {p : Node}
    (h : (q, p) ∈ forestRows above f) : (p.rows q).Sublist (forestRows above f) := by
  induction f using Forest.induction generalizing above with
  | nil => simp at h
  | cons n rest ihChildren ihRest =>
    rw [forestRows_cons] at h ⊢
    rcases List.mem_cons.mp h with he | h
    · obtain ⟨rfl, rfl⟩ := Prod.mk.inj he
      rw [rows_eq]
      exact (List.sublist_append_left _ _).cons_cons _
    · apply List.Sublist.cons
      rcases List.mem_append.mp h with h | h
      · exact (ihChildren h).trans (List.sublist_append_left _ _)
      · exact (ihRest h).trans (List.sublist_append_right _ _)

/-- The nodes at and below a node of a forest are nodes of the forest, in the same order. -/
theorem preorder_sublist_of_mem {f : Forest} {n : Node} (h : n ∈ forestPreorder f) :
    n.preorder.Sublist (forestPreorder f) := by
  rw [← map_snd_forestRows []] at h ⊢
  obtain ⟨⟨path, m⟩, hrow, rfl⟩ := List.mem_map.mp h
  rw [← map_snd_rows path]
  exact (rows_sublist_of_mem hrow).map Prod.snd

/-- The rows at and below a row stand side by side. -/
theorem rows_infix_of_mem {above q : List NodeId} {f : Forest} {p : Node}
    (h : (q, p) ∈ forestRows above f) : p.rows q <:+: forestRows above f := by
  induction f using Forest.induction generalizing above with
  | nil => simp at h
  | cons n rest ihChildren ihRest =>
    rw [forestRows, rows_eq above n]
    rw [forestRows_cons] at h
    rcases List.mem_cons.mp h with he | h
    · obtain ⟨rfl, rfl⟩ := Prod.mk.inj he
      rw [rows_eq]
      exact List.infix_append [] _ _
    · rcases List.mem_append.mp h with h | h
      · exact ((ihChildren h).trans (List.infix_cons List.infix_rfl)).trans
          (List.infix_append [] _ _)
      · exact (ihRest h).trans (List.suffix_append _ _).isInfix

/-- The rows below a row are rows of the forest, in the same order. -/
theorem forestRows_sublist_of_mem {above q : List NodeId} {f : Forest} {p : Node}
    (h : (q, p) ∈ forestRows above f) :
    (forestRows (p.id :: q) p.children).Sublist (forestRows above f) := by
  have hrows := rows_sublist_of_mem h
  rw [rows_eq] at hrows
  exact (List.sublist_cons_self _ _).trans hrows

/-- The ids above a row end with those above the forest. -/
theorem path_of_mem_forestRows {above path : List NodeId} {f : Forest} {m : Node}
    (h : (path, m) ∈ forestRows above f) : ∃ between, path = between ++ above := by
  induction f using Forest.induction generalizing above with
  | nil => simp at h
  | cons n rest ihChildren ihRest =>
    rw [forestRows_cons] at h
    rcases List.mem_cons.mp h with he | h
    · cases he
      exact ⟨[], rfl⟩
    · rcases List.mem_append.mp h with h | h
      · obtain ⟨between, rfl⟩ := ihChildren h
        exact ⟨between ++ [n.id], by simp⟩
      · exact ihRest h

/-- A row stands below the row of each id above it. -/
theorem exists_row_of_mem_path {above path : List NodeId} {f : Forest} {m : Node} {id : NodeId}
    (h : (path, m) ∈ forestRows above f) (hid : id ∈ path) :
    id ∈ above ∨ ∃ q p, (q, p) ∈ forestRows above f ∧ p.id = id ∧
      (path, m) ∈ forestRows (p.id :: q) p.children := by
  induction f using Forest.induction generalizing above with
  | nil => simp at h
  | cons n rest ihChildren ihRest =>
    rw [forestRows_cons] at h ⊢
    rcases List.mem_cons.mp h with he | h
    · cases he
      exact Or.inl hid
    · rcases List.mem_append.mp h with h | h
      · rcases ihChildren h with habove | ⟨q, p, hp, hrest⟩
        · rcases List.mem_cons.mp habove with rfl | habove
          · exact Or.inr ⟨above, n, List.mem_cons_self, rfl, h⟩
          · exact Or.inl habove
        · exact Or.inr ⟨q, p, List.mem_cons_of_mem _ (List.mem_append_left _ hp), hrest⟩
      · rcases ihRest h with habove | ⟨q, p, hp, hrest⟩
        · exact Or.inl habove
        · exact Or.inr ⟨q, p, List.mem_cons_of_mem _ (List.mem_append_right _ hp), hrest⟩

/-! ### Pruning -/

/-- A node whose id is taken is dropped, whatever is below it. -/
theorem forestPrune_cons_taken {taken : List NodeId} {n : Node} (rest : Forest)
    (h : n.id ∈ taken) : forestPrune taken (n :: rest) = forestPrune taken rest := by
  cases n
  simp [forestPrune, prune, h]

/-- A node whose id is free stays. What is below it is pruned first, and then what is behind it. -/
theorem forestPrune_cons_free {taken : List NodeId} {n : Node} (rest : Forest)
    (h : n.id ∉ taken) :
    forestPrune taken (n :: rest) =
      let below := forestPrune (n.id :: taken) n.children
      let behind := forestPrune below.2 rest
      (⟨n.id, n.kind, n.range.filter (!·.isInverted), below.1⟩ :: behind.1, behind.2) := by
  cases n
  simp [forestPrune, prune, h]

/-- The ids that are taken after a forest: those of the nodes that stay, and those from before. -/
theorem forestPrune_taken (taken : List NodeId) (f : Forest) :
    (forestPrune taken f).2 =
      ((forestPreorder (forestPrune taken f).1).map Node.id).reverse ++ taken := by
  induction f using Forest.induction generalizing taken with
  | nil => simp [forestPrune, forestPreorder]
  | cons n rest ihChildren ihRest =>
    by_cases h : n.id ∈ taken
    · rw [forestPrune_cons_taken rest h, ihRest]
    · rw [forestPrune_cons_free rest h]
      simp only [forestPreorder, preorder_eq_cons]
      rw [ihRest, ihChildren]
      simp

/-- No id is taken twice. -/
theorem nodup_forestPrune_taken {taken : List NodeId} (h : taken.Nodup) (f : Forest) :
    (forestPrune taken f).2.Nodup := by
  induction f using Forest.induction generalizing taken with
  | nil => simpa [forestPrune] using h
  | cons n rest ihChildren ihRest =>
    by_cases hn : n.id ∈ taken
    · rw [forestPrune_cons_taken rest hn]
      exact ihRest h
    · rw [forestPrune_cons_free rest hn]
      exact ihRest (ihChildren (List.nodup_cons.mpr ⟨hn, h⟩))

/-- The ids of a pruned tree are distinct. -/
theorem nodup_ids_pruned (root : Node) : (root.pruned.preorder.map Node.id).Nodup := by
  have hroot : [root.id].Nodup := List.nodup_cons.mpr ⟨List.not_mem_nil, List.nodup_nil⟩
  have h := nodup_forestPrune_taken hroot root.children
  rw [forestPrune_taken] at h
  rw [preorder_eq_cons, List.map_cons]
  apply (List.reverse_perm _).nodup_iff.mp
  rw [List.reverse_cons]
  exact h

private theorem not_inverted_of_filter {range : Option Range} {r : Range}
    (h : range.filter (!·.isInverted) = some r) : r.isInverted = false := by
  have hr := (Option.filter_eq_some_iff.mp h).2
  simpa using hr

private theorem not_inverted_forestPrune {taken : List NodeId} {f : Forest} {m : Node} {r : Range}
    (h : m ∈ forestPreorder (forestPrune taken f).1) (hr : m.range = some r) :
    r.isInverted = false := by
  induction f using Forest.induction generalizing taken with
  | nil => simp [forestPrune, forestPreorder] at h
  | cons n rest ihChildren ihRest =>
    by_cases hn : n.id ∈ taken
    · rw [forestPrune_cons_taken rest hn] at h
      exact ihRest h
    · rw [forestPrune_cons_free rest hn] at h
      rw [forestPreorder_cons] at h
      rcases List.mem_cons.mp h with rfl | h
      · exact not_inverted_of_filter hr
      · rcases List.mem_append.mp h with h | h
        · exact ihChildren h
        · exact ihRest h

/-- No range of a pruned tree is inverted. -/
theorem not_inverted_of_mem_pruned {root m : Node} {r : Range} (h : m ∈ root.pruned.preorder)
    (hr : m.range = some r) : r.isInverted = false := by
  rw [preorder_eq_cons] at h
  rcases List.mem_cons.mp h with rfl | h
  · exact not_inverted_of_filter hr
  · exact not_inverted_forestPrune h hr

private theorem nodup_split {a : NodeId} {below behind taken : List NodeId}
    (h : (a :: (below ++ behind) ++ taken).Nodup) :
    (below ++ a :: taken).Nodup ∧ (behind ++ (below.reverse ++ a :: taken)).Nodup := by
  simp only [List.cons_append, List.append_assoc, List.nodup_cons, List.nodup_append,
    List.mem_append, List.mem_cons, List.mem_reverse, (List.reverse_perm below).nodup_iff] at h ⊢
  grind

/-- A forest without repeated ids loses no node. All that pruning takes away are inverted ranges. -/
theorem forestPrune_of_nodup {taken : List NodeId} {f : Forest}
    (h : ((forestPreorder f).map Node.id ++ taken).Nodup) :
    (forestPrune taken f).1.map Node.id = f.map Node.id ∧
      (forestPreorder (forestPrune taken f).1).map
          (fun n => (n.id, n.kind, n.range, n.children.map Node.id)) =
        (forestPreorder f).map
          (fun n => (n.id, n.kind, n.range.filter (!·.isInverted), n.children.map Node.id)) := by
  induction f using Forest.induction generalizing taken with
  | nil => simp [forestPrune, forestPreorder]
  | cons n rest ihChildren ihRest =>
    rw [forestPreorder_cons, List.map_cons, List.map_append] at h
    obtain ⟨hbelow, hbehind⟩ := nodup_split h
    have hfree : n.id ∉ taken := (List.nodup_cons.mp (List.nodup_append.mp hbelow).2.1).1
    obtain ⟨hchildren, hunder⟩ := ihChildren hbelow
    -- The ids taken below the node are those of the nodes there, so what is behind meets none of
    -- them.
    have hids := congrArg (List.map Prod.fst) hunder
    simp only [List.map_map, Function.comp_def] at hids
    have htaken := forestPrune_taken (n.id :: taken) n.children
    rw [hids] at htaken
    have hrest : ((forestPreorder rest).map Node.id ++
        (forestPrune (n.id :: taken) n.children).2).Nodup := by
      rw [htaken]
      exact hbehind
    obtain ⟨hothers, hafter⟩ := ihRest hrest
    rw [forestPrune_cons_free rest hfree]
    simp only [forestPreorder_cons, List.map_cons, List.map_append]
    exact ⟨by rw [hothers], by rw [hchildren, hunder, hafter]⟩

/-- A forest without repeated ids and inverted ranges is not pruned. -/
theorem forestPrune_eq_self {taken : List NodeId} {f : Forest}
    (hids : ((forestPreorder f).map Node.id ++ taken).Nodup)
    (hranges : ∀ n ∈ forestPreorder f, ∀ r ∈ n.range, r.isInverted = false) :
    (forestPrune taken f).1 = f := by
  induction f using Forest.induction generalizing taken with
  | nil => simp [forestPrune]
  | cons n rest ihChildren ihRest =>
    rw [forestPreorder_cons] at hids hranges
    rw [List.map_cons, List.map_append] at hids
    obtain ⟨hbelow, hbehind⟩ := nodup_split hids
    have hfree : n.id ∉ taken := (List.nodup_cons.mp (List.nodup_append.mp hbelow).2.1).1
    have hrange : n.range.filter (!·.isInverted) = n.range := by
      cases hr : n.range with
      | none => rfl
      | some r => simp [hranges n List.mem_cons_self r hr]
    have hchildren : (forestPrune (n.id :: taken) n.children).1 = n.children :=
      ihChildren hbelow fun m hm =>
        hranges m (List.mem_cons_of_mem _ (List.mem_append_left _ hm))
    have htaken := forestPrune_taken (n.id :: taken) n.children
    rw [hchildren, ← List.map_reverse] at htaken
    have hrest : (forestPrune (forestPrune (n.id :: taken) n.children).2 rest).1 = rest := by
      rw [htaken]
      apply ihRest
      · simpa using hbehind
      · exact fun m hm => hranges m (List.mem_cons_of_mem _ (List.mem_append_right _ hm))
    rw [forestPrune_cons_free rest hfree]
    simp only [hrange, hchildren, hrest]
    cases n
    rfl

/-- A tree without repeated ids loses no node. -/
theorem map_content_pruned {root : Node} (h : (root.preorder.map Node.id).Nodup) :
    root.pruned.preorder.map (fun n => (n.id, n.kind, n.range, n.children.map Node.id)) =
      root.preorder.map
        (fun n => (n.id, n.kind, n.range.filter (!·.isInverted), n.children.map Node.id)) := by
  have hids : ((forestPreorder [root]).map Node.id ++ []).Nodup := by
    rwa [List.append_nil, forestPreorder_singleton]
  have hpruned : (forestPrune [] [root]).1 = [root.pruned] := by
    simp [forestPrune, prune_nil]
  rw [← forestPreorder_singleton root, ← (forestPrune_of_nodup hids).2, hpruned,
    forestPreorder_singleton]

/-- A tree without repeated ids and inverted ranges is not pruned. -/
theorem pruned_eq_self {root : Node} (hids : (root.preorder.map Node.id).Nodup)
    (hranges : ∀ n ∈ root.preorder, ∀ r ∈ n.range, r.isInverted = false) :
    root.pruned = root := by
  have h : (forestPrune [] [root]).1 = [root] := by
    apply forestPrune_eq_self
    · simpa [forestPreorder] using hids
    · simpa [forestPreorder] using hranges
  simpa [forestPrune, prune_nil] using h

end Node

end GroovyIndex
