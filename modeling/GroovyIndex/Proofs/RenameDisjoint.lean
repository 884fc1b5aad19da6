import GroovyIndex.Proofs.RenameContent

/-!
# The edits of a rename are disjoint

In a nested tree every node lies inside its parent, siblings follow each other, and identifiers
keep clear of the children. Then the identifiers of any two nodes stand apart: side by side they
are in different siblings, and of a node below another one the identifier is inside a child.
-/

namespace GroovyIndex

/-! ### Ranges apart -/

namespace Range

/-- One range ends where the other starts, or before. -/
def Apart (a b : Range) : Prop := a.stop ≤ b.start ∨ b.stop ≤ a.start

instance (a b : Range) : Decidable (a.Apart b) :=
  inferInstanceAs (Decidable (a.stop ≤ b.start ∨ b.stop ≤ a.start))

theorem Apart.symm {a b : Range} (h : a.Apart b) : b.Apart a := Or.symm h

/-- What lies inside ranges that stand apart stands apart. -/
theorem Apart.mono {a b c d : Range} (h : a.Apart b) (hac : a.containsRange c = true)
    (hbd : b.containsRange d = true) : c.Apart d := by
  rw [containsRange_iff] at hac hbd
  rcases h with h | h
  · exact Or.inl (Position.le_trans hac.2 (Position.le_trans h hbd.1))
  · exact Or.inr (Position.le_trans hbd.2 (Position.le_trans h hac.1))

end Range

/-! ### Nested trees -/

namespace Kind

/-- The kind keeps the range of the identifier apart from that of the node. -/
def keepsNameRange : Kind → Bool
  | classDecl .. | methodDecl .. | fieldDecl .. | propertyDecl .. | parameter .. | propertyRef ..
  | call .. | constructorCall .. => true
  | _ => false

/-- The node is an identifier and nothing else. -/
def isBareName : Kind → Bool
  | variableRef .. | classRef .. => true
  | _ => false

end Kind

namespace Node

/-- The first node ends before the second starts, or where it starts. -/
def Precedes (a b : Node) : Prop := ∀ r ∈ a.range, ∀ s ∈ b.range, r.stop ≤ s.start

instance (a b : Node) : Decidable (a.Precedes b) :=
  inferInstanceAs (Decidable (∀ r ∈ a.range, ∀ s ∈ b.range, r.stop ≤ s.start))

/-- The node is upright, its children lie inside and follow each other, and its identifier lies
inside and overlaps no child. A bare name has no children. -/
structure Orderly (n : Node) : Prop where
  placed : ∃ r ∈ n.range, r.isInverted = false
  inside : ∀ c ∈ n.children, ∀ r ∈ n.range, ∀ s ∈ c.range, r.containsRange s = true
  siblings : n.children.IsChain Precedes
  named : n.kind.keepsNameRange = true → n.kind.nameRange?.isSome = true
  name : ∀ i ∈ n.kind.nameRange?, i.isInverted = false ∧
    (∀ r ∈ n.range, r.containsRange i = true) ∧ ∀ c ∈ n.children, ∀ s ∈ c.range, i.Apart s
  bare : n.kind.isBareName = true → n.children.isEmpty = true

instance (n : Node) : Decidable n.Orderly :=
  decidable_of_iff
    ((∃ r ∈ n.range, r.isInverted = false) ∧
      (∀ c ∈ n.children, ∀ r ∈ n.range, ∀ s ∈ c.range, r.containsRange s = true) ∧
      n.children.IsChain Precedes ∧
      (n.kind.keepsNameRange = true → n.kind.nameRange?.isSome = true) ∧
      (∀ i ∈ n.kind.nameRange?, i.isInverted = false ∧
        (∀ r ∈ n.range, r.containsRange i = true) ∧ ∀ c ∈ n.children, ∀ s ∈ c.range, i.Apart s) ∧
      (n.kind.isBareName = true → n.children.isEmpty = true))
    ⟨fun ⟨h₁, h₂, h₃, h₄, h₅, h₆⟩ => ⟨h₁, h₂, h₃, h₄, h₅, h₆⟩,
      fun h => ⟨h.placed, h.inside, h.siblings, h.named, h.name, h.bare⟩⟩

/-- No two nodes of the tree have one id, and every node is orderly. -/
structure Nested (root : Node) : Prop where
  ids : (root.preorder.map Node.id).Nodup
  orderly : ∀ n ∈ root.preorder, n.Orderly

/-- The identifier that a node shows, if any: the one kept by its kind, or all of a bare name. -/
def identifier? (n : Node) : Option Range :=
  if n.kind.isBareName then n.range else n.kind.nameRange?

/-- The identifiers of the nodes do not overlap. -/
def Apart (a b : Node) : Prop := ∀ i ∈ a.identifier?, ∀ j ∈ b.identifier?, i.Apart j

instance : Std.Symm Apart := ⟨fun _ _ h j hj i hi => (h i hi j hj).symm⟩

/-- The identifier of an orderly node is upright, lies inside the node and overlaps no child. -/
theorem Orderly.of_identifier? {n : Node} (h : n.Orderly) {i : Range}
    (hi : n.identifier? = some i) :
    i.isInverted = false ∧ (∀ r ∈ n.range, r.containsRange i = true) ∧
      ∀ c ∈ n.children, ∀ s ∈ c.range, i.Apart s := by
  unfold identifier? at hi
  split at hi
  · next hbare =>
    obtain ⟨r, hr, hup⟩ := h.placed
    rw [Option.mem_def, hi] at hr
    cases hr
    refine ⟨hup, ?_, ?_⟩
    · intro r hr
      rw [Option.mem_def, hi] at hr
      cases hr
      exact Range.containsRange_self _
    · intro c hc
      rw [List.isEmpty_iff.mp (h.bare hbare)] at hc
      cases hc
  · exact h.name i hi

/-- An orderly node that shows an identifier shows the one that its entry has. -/
theorem Orderly.identifier?_eq {n : Node} (h : n.Orderly)
    (hshows : n.kind.keepsNameRange = true ∨ n.kind.isBareName = true) (path : List NodeId) :
    n.identifier? = (n.entry path).nameRange? := by
  rcases hshows with hkeeps | hbare
  · obtain ⟨i, hi⟩ := Option.isSome_iff_exists.mp (h.named hkeeps)
    have hnot : n.kind.isBareName = false := by
      cases hk : n.kind <;> simp [hk, Kind.keepsNameRange, Kind.isBareName] at hkeeps ⊢
    simp [identifier?, hnot, Entry.nameRange?, Node.entry, hi]
  · have hnone : n.kind.nameRange? = none := by
      cases hk : n.kind <;> simp [hk, Kind.isBareName, Kind.nameRange?] at hbare ⊢
    simp [identifier?, hbare, Entry.nameRange?, Node.entry, hnone]

/-- The identifiers in a forest lie inside its trees. -/
theorem exists_tree_around {f : Forest} (h : ∀ n ∈ forestPreorder f, n.Orderly) {m : Node}
    (hm : m ∈ forestPreorder f) {i : Range} (hi : m.identifier? = some i) :
    ∃ c ∈ f, ∃ r ∈ c.range, r.containsRange i = true := by
  induction f using Forest.induction with
  | nil =>
    rw [forestPreorder] at hm
    cases hm
  | cons n rest ihChildren ihRest =>
    rw [forestPreorder_cons] at h hm
    obtain ⟨hn, h⟩ := List.forall_mem_cons.mp h
    obtain ⟨hchildren, hrest⟩ := List.forall_mem_append.mp h
    obtain ⟨r, hr, -⟩ := hn.placed
    rcases List.mem_cons.mp hm with rfl | hm
    · exact ⟨m, List.mem_cons_self, r, hr, (hn.of_identifier? hi).2.1 r hr⟩
    · rcases List.mem_append.mp hm with hm | hm
      · obtain ⟨c, hc, s, hs, hsi⟩ := ihChildren hchildren hm
        have hinside := Range.containsRange_trans (hn.inside c hc r hr s hs) hsi
        exact ⟨n, List.mem_cons_self, r, hr, hinside⟩
      · obtain ⟨c, hc, hinside⟩ := ihRest hrest hm
        exact ⟨c, List.mem_cons_of_mem _ hc, hinside⟩

theorem mem_forestPreorder_of_mem {f : Forest} {n : Node} (h : n ∈ f) : n ∈ forestPreorder f := by
  rw [← map_snd_forestRows []]
  exact List.mem_map.mpr ⟨([], n), mem_forestRows_of_mem h, rfl⟩

/-- Each child of an orderly node precedes all later ones. -/
theorem Orderly.pairwise_children {n : Node} (h : n.Orderly)
    (hchildren : ∀ m ∈ forestPreorder n.children, m.Orderly) : n.children.Pairwise Precedes := by
  apply pairwise_of_isChain Node.range _ h.siblings
  intro c hc
  obtain ⟨r, hr, hup⟩ := (hchildren c (mem_forestPreorder_of_mem hc)).placed
  exact ⟨r, hr, Range.isInverted_eq_false_iff.mp hup⟩

/-- The identifier of a node stands apart from those below: each of them lies inside a child. -/
private theorem Orderly.apart_of_below {n : Node} (h : n.Orderly)
    (hchildren : ∀ m ∈ forestPreorder n.children, m.Orderly) {m : Node}
    (hm : m ∈ forestPreorder n.children) : n.Apart m := by
  intro i hi j hj
  obtain ⟨c, hc, s, hs, hsj⟩ := exists_tree_around hchildren hm hj
  have hclear : i.Apart s := (h.of_identifier? hi).2.2 c hc s hs
  exact hclear.mono (Range.containsRange_self i) hsj

/-- The identifiers in a tree stand apart from those in the trees that it precedes. -/
private theorem apart_of_precedes {n : Node} {rest : Forest} (hn : ∀ m ∈ n.preorder, m.Orderly)
    (hrest : ∀ m ∈ forestPreorder rest, m.Orderly) (hbefore : ∀ c ∈ rest, n.Precedes c) {a b : Node}
    (ha : a ∈ n.preorder) (hb : b ∈ forestPreorder rest) : a.Apart b := by
  intro i hi j hj
  rw [← forestPreorder_singleton] at hn ha
  obtain ⟨c, hc, r, hr, hri⟩ := exists_tree_around hn ha hi
  obtain ⟨d, hd, s, hs, hsj⟩ := exists_tree_around hrest hb hj
  rw [List.mem_singleton.mp hc] at hr
  have hclear : r.Apart s := Or.inl (hbefore d hd r hr s hs)
  exact hclear.mono hri hsj

/-- In a forest of orderly nodes whose trees follow each other, all identifiers stand apart. -/
theorem pairwise_apart {f : Forest} (h : ∀ n ∈ forestPreorder f, n.Orderly)
    (hf : f.Pairwise Precedes) : (forestPreorder f).Pairwise Apart := by
  induction f using Forest.induction with
  | nil =>
    rw [forestPreorder]
    exact List.Pairwise.nil
  | cons n rest ihChildren ihRest =>
    obtain ⟨hbefore, hf⟩ := List.pairwise_cons.mp hf
    rw [forestPreorder] at h ⊢
    obtain ⟨hn, hrest⟩ := List.forall_mem_append.mp h
    refine List.pairwise_append.mpr ⟨?_, ihRest hrest hf, ?_⟩
    · rw [preorder_eq_cons] at hn ⊢
      obtain ⟨hself, hchildren⟩ := List.forall_mem_cons.mp hn
      refine List.pairwise_cons.mpr ⟨?_, ihChildren hchildren (hself.pairwise_children hchildren)⟩
      intro m hm
      exact hself.apart_of_below hchildren hm
    · intro a ha b hb
      exact apart_of_precedes hn hrest hbefore ha hb

namespace Nested

variable {root : Node} (h : root.Nested)
include h

/-- In a nested tree all identifiers stand apart. -/
theorem pairwise_apart : root.preorder.Pairwise Apart := by
  rw [← forestPreorder_singleton]
  apply Node.pairwise_apart
  · rw [forestPreorder_singleton]
    exact h.orderly
  · exact List.pairwise_singleton _ _

/-- A nested tree is not pruned. -/
theorem pruned_eq : root.pruned = root := by
  apply pruned_eq_self h.ids
  intro n hn r hr
  obtain ⟨s, hs, hup⟩ := (h.orderly n hn).placed
  rw [hr] at hs
  cases hs
  exact hup

end Nested

end Node

/-! ### Edits -/

/-- The first edit ends where the second starts, or before. -/
def TextEdit.EndsBefore (a b : TextEdit) : Prop := a.range.stop ≤ b.range.start

namespace Session

variable {s : Session} {target : Definition} {newName : String}

/-- A node that resolves to anything but an import shows an identifier. -/
theorem Standard.showsName_of_resolve (hs : s.Standard) {e : Entry}
    (he : e ∈ s.snapshot.index.entries) {d : Definition} (h : s.resolve e = .ok d)
    (hkind : d.kind ≠ .importDecl) :
    e.kind.keepsNameRange = true ∨ e.kind.isBareName = true := by
  rw [resolve, hs.chain] at h
  rcases Lookup.resolve_standard_eq_ok h with ⟨-, hdef⟩ | ⟨-, -, -, -, hrefers⟩
  · rw [Snapshot.definitionFor?_of_mem he] at hdef
    obtain ⟨-, -, -, hsymbol, -⟩ := Snapshot.definitionOf?_eq_some hdef
    cases hk : e.kind <;>
      simp [hk, Kind.symbolKind?, Kind.keepsNameRange, Kind.isBareName] at hsymbol ⊢
    exact hkind hsymbol.symm
  · change e.kind.mayReferTo d.kind = true at hrefers
    cases hk : e.kind <;>
      simp [hk, Kind.mayReferTo, Kind.keepsNameRange, Kind.isBareName] at hrefers ⊢

/-- A node whose identifier a rename replaces shows one. -/
theorem Standard.showsName_of_renames (hs : s.Standard) (hkind : target.kind ≠ .importDecl)
    {e : Entry} (he : e ∈ s.snapshot.index.entries) {name : String}
    (h : s.Renames target newName e name) :
    e.kind.keepsNameRange = true ∨ e.kind.isBareName = true := by
  cases h with
  | occurrence _ h => exact hs.showsName_of_resolve he h hkind
  | constructor _ hk => exact Or.inl (by rw [hk]; rfl)
  | accessor _ _ _ hmethod _ _ h =>
    apply hs.showsName_of_resolve he h
    rcases hmethod with hmethod | hmethod <;> simp [hmethod]

/-- In a nested document each edit of a rename replaces the identifier that some node shows. -/
theorem Standard.exists_identifier?_of_mem_renamePlan (hs : s.Standard)
    (htree : s.snapshot.parsed.root.Nested)
    (htarget : s.snapshot.definitionFor? target.node = some target)
    (hkind : target.kind ≠ .importDecl) {uri : Uri} {edit : TextEdit}
    (h : (uri, edit) ∈ s.renamePlan target newName) :
    ∃ n ∈ s.snapshot.parsed.root.preorder, n.identifier? = some edit.range := by
  obtain ⟨-, e, he, hgets, hrange⟩ := hs.exists_gets_of_mem_renamePlan htarget h
  have huri : target.uri = s.uri := (Snapshot.node_of_definitionFor? htarget).2
  have hshows := hs.showsName_of_renames hkind he ((hs.gets_iff_renames huri hkind he).mp hgets)
  have hroot : s.snapshot.index.tree = s.snapshot.parsed.root := by
    rw [s.snapshot.index_eq]
    exact htree.pruned_eq
  obtain ⟨n, hn, path, rfl⟩ := Index.exists_node_of_mem he
  rw [hroot] at hn
  exact ⟨n, hn, ((htree.orderly n hn).identifier?_eq hshows path).trans hrange⟩

/-- In a nested document no two edits of a rename overlap: each ends before the next ones start. -/
theorem rename_edits_disjoint (s : Session) (hs : s.Standard)
    (htree : s.snapshot.parsed.root.Nested) {pos : Position} {newName : String} {batch : EditBatch}
    (hrename : s.rename pos newName = .ok batch) (uri : Uri) :
    (batch.editsFor uri).Pairwise TextEdit.EndsBefore := by
  obtain ⟨start, target, htarget, rfl⟩ := rename_eq_ok hrename
  obtain ⟨hdeclared, hkind⟩ := hs.declared_of_renameTarget htarget
  apply (EditBatch.pairwise_editsFor_normalize _ uri).imp_of_mem
  intro a b ha hb hstart
  have hplan := EditBatch.mem_plan_of_mem_normalize ha
  have hplan' := EditBatch.mem_plan_of_mem_normalize hb
  obtain ⟨m, hm, hi⟩ := hs.exists_identifier?_of_mem_renamePlan htree hdeclared hkind hplan
  obtain ⟨n, hn, hj⟩ := hs.exists_identifier?_of_mem_renamePlan htree hdeclared hkind hplan'
  have hne : m ≠ n := by
    rintro rfl
    rw [hi] at hj
    rw [TextEdit.StartsBefore, Option.some.inj hj] at hstart
    exact Position.not_le.mpr hstart (Position.le_refl _)
  rcases htree.pairwise_apart.forall hm hn hne _ hi _ hj with hbefore | hafter
  · exact hbefore
  · -- The second edit does not start before the first, and it is upright.
    have hup := Range.isInverted_eq_false_iff.mp ((htree.orderly n hn).of_identifier? hj).1
    exact absurd (Position.le_trans hup hafter) (Position.not_le.mpr hstart)

/-- A field, its getter and a call to the getter on the result of another. -/
private def linked : Session where
  snapshot := .ofParsed (.clean ⟨⟨"file:///linked.groovy"⟩, 1⟩
    ⟨⟨0⟩, .moduleRoot, some (.ofCorners 0 0 5 0),
      [⟨⟨1⟩, .classDecl "Chain" (some (.ofCorners 0 6 0 11)) false, some (.ofCorners 0 0 4 1),
        [⟨⟨2⟩, .fieldDecl "next" (some (.ofCorners 1 8 1 12)) (some "Chain"),
          some (.ofCorners 1 2 1 12), []⟩,
         ⟨⟨3⟩, .methodDecl "getNext" (some (.ofCorners 2 8 2 15)) (some "Chain") false,
          some (.ofCorners 2 2 2 26),
          [⟨⟨4⟩, .variableRef "next", some (.ofCorners 2 20 2 24), []⟩]⟩,
         ⟨⟨5⟩, .methodDecl "skip" (some (.ofCorners 3 6 3 10)) none false,
          some (.ofCorners 3 2 3 36),
          [⟨⟨6⟩, .call "getNext" (some (.ofCorners 3 25 3 32)) false, some (.ofCorners 3 15 3 34),
            [⟨⟨7⟩, .call "getNext" (some (.ofCorners 3 15 3 22)) true,
              some (.ofCorners 3 15 3 24), []⟩]⟩]⟩]⟩]⟩) 0
  auxiliary := [.ofParsed (.clean ⟨⟨"file:///other.groovy"⟩, 1⟩ ⟨⟨0⟩, .moduleRoot, none, []⟩) 1]
  chain := .standard
  config := {}

private def linkedEdits : List TextEdit :=
  [⟨.ofCorners 1 8 1 12, "tail"⟩, ⟨.ofCorners 2 8 2 15, "getTail"⟩, ⟨.ofCorners 2 20 2 24, "tail"⟩,
   ⟨.ofCorners 3 15 3 22, "getTail"⟩, ⟨.ofCorners 3 25 3 32, "getTail"⟩]

/-- The edits to a call and to the call that it is made on do not overlap. -/
theorem rename_edits_disjoint_linked :
    linked.Standard ∧ linked.snapshot.parsed.root.Nested ∧
    linked.rename ⟨1, 9⟩ "tail" = .ok (EditBatch.empty.put linked.uri linkedEdits) ∧
    linkedEdits.Pairwise TextEdit.EndsBefore := by
  have hs : linked.Standard := ⟨rfl, by decide⟩
  have htree : linked.snapshot.parsed.root.Nested := ⟨by decide, by decide⟩
  have hrename : linked.rename ⟨1, 9⟩ "tail" =
      .ok (EditBatch.empty.put linked.uri linkedEdits) := rfl
  exact ⟨hs, htree, hrename, rename_edits_disjoint linked hs htree hrename linked.uri⟩

end Session

end GroovyIndex
