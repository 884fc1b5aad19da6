import Mathlib.Data.List.Sort
import GroovyIndex.Proofs.LocalFirst
import GroovyIndex.Proofs.Recorded

/-!
# The order of the fields of a name

Fields are kept by owner: the owners by their first fields, the fields of one owner as they are
declared. So a field can come before one that is declared earlier. The fields of a name are a
stable sort of the declared ones, which moves nothing exactly if `OwnerFirst`.
-/

namespace GroovyIndex

/-! ### Grouping is sorting -/

section Grouping

variable {α β : Type} [DecidableEq β]

/-- The number of members before the first one of a key. -/
def keyRank (key : α → β) (xs : List α) (k : β) : Nat := (xs.map key).idxOf k

theorem keyRank_cons_self (key : α → β) (x : α) (xs : List α) :
    keyRank key (x :: xs) (key x) = 0 :=
  List.idxOf_cons_self

theorem keyRank_cons_of_ne {key : α → β} {x : α} {k : β} (xs : List α) (h : k ≠ key x) :
    keyRank key (x :: xs) k = keyRank key xs k + 1 :=
  List.idxOf_cons_ne _ (Ne.symm h)

/-- The keys of the first members come by rank. -/
theorem pairwise_keyRank_firstPerKey (key : α → β) (xs : List α) :
    (firstPerKey key xs).Pairwise fun a b => keyRank key xs (key a) < keyRank key xs (key b) := by
  induction xs with
  | nil => exact List.Pairwise.nil
  | cons x rest ih =>
    have hne {y : α} (hy : y ∈ (firstPerKey key rest).filter (key · ≠ key x)) : key y ≠ key x := by
      simpa using (List.mem_filter.mp hy).2
    refine List.pairwise_cons.mpr ⟨?_, ?_⟩
    · intro y hy
      rw [keyRank_cons_self, keyRank_cons_of_ne rest (hne hy)]
      exact Nat.succ_pos _
    · refine (ih.filter _).imp_of_mem ?_
      intro a b ha hb hab
      rw [keyRank_cons_of_ne rest (hne ha), keyRank_cons_of_ne rest (hne hb)]
      exact Nat.succ_lt_succ hab

/-- What comes before a whole list is inserted at its front. -/
private theorem orderedInsert_of_forall {r : α → α → Prop} [DecidableRel r] {a : α} {xs : List α}
    (h : ∀ x ∈ xs, r a x) : xs.orderedInsert r a = a :: xs := by
  cases xs with
  | nil => rfl
  | cons x rest => exact List.orderedInsert_cons_of_le r rest (h x List.mem_cons_self)

/-- What comes behind a whole list is inserted into what follows that list. -/
private theorem orderedInsert_append_of_forall_not {r : α → α → Prop} [DecidableRel r] {a : α}
    {xs : List α} (ys : List α) (h : ∀ x ∈ xs, ¬ r a x) :
    (xs ++ ys).orderedInsert r a = xs ++ ys.orderedInsert r a := by
  induction xs with
  | nil => rfl
  | cons x rest ih =>
    rw [List.cons_append, List.orderedInsert_of_not_le _ _ (h x List.mem_cons_self),
      ih fun y hy => h y (List.mem_cons_of_mem _ hy), List.cons_append]

/-- The members of a list key by key. -/
private def byKeys (key : α → β) (ks : List β) (xs : List α) : List α :=
  ks.flatMap fun k => xs.filter (key · = k)

private theorem key_mem_of_mem_byKeys {key : α → β} {ks : List β} {xs : List α} {x : α}
    (h : x ∈ byKeys key ks xs) : key x ∈ ks := by
  obtain ⟨k, hk, hx⟩ := List.mem_flatMap.mp h
  have hkey : key x = k := by simpa using (List.mem_filter.mp hx).2
  rwa [hkey]

private theorem byKeys_cons_of_notMem {key : α → β} {ks : List β} {x : α} (xs : List α)
    (h : key x ∉ ks) : byKeys key ks (x :: xs) = byKeys key ks xs := by
  apply List.flatMap_congr
  intro k hk
  have hne : key x ≠ k := by
    rintro rfl
    exact h hk
  exact List.filter_cons_of_neg (by simpa using hne)

/-- One more member goes to the front of its key, behind all keys of smaller rank. -/
private theorem byKeys_cons {key : α → β} {rank : β → Nat} {ks : List β}
    (hks : ks.Pairwise fun k k' => rank k < rank k') {x : α} (hx : key x ∈ ks) (xs : List α) :
    byKeys key ks (x :: xs) =
      (byKeys key ks xs).orderedInsert (fun a b => rank (key a) ≤ rank (key b)) x := by
  induction ks with
  | nil => cases hx
  | cons k rest ih =>
    obtain ⟨hfirst, hrest⟩ := List.pairwise_cons.mp hks
    change (x :: xs).filter (key · = k) ++ byKeys key rest (x :: xs) =
      (xs.filter (key · = k) ++ byKeys key rest xs).orderedInsert _ x
    by_cases hk : key x = k
    · have hout : key x ∉ rest := by
        intro hmem
        have hlt := hfirst _ hmem
        rw [hk] at hlt
        exact Nat.lt_irrefl _ hlt
      rw [List.filter_cons_of_pos (by simpa using hk), byKeys_cons_of_notMem xs hout,
        List.cons_append, orderedInsert_of_forall]
      intro y hy
      rw [hk]
      rcases List.mem_append.mp hy with hy | hy
      · have hkey : key y = k := by simpa using (List.mem_filter.mp hy).2
        rw [hkey]
      · exact Nat.le_of_lt (hfirst _ (key_mem_of_mem_byKeys hy))
    · have hmem : key x ∈ rest := (List.mem_cons.mp hx).resolve_left hk
      rw [List.filter_cons_of_neg (by simpa using hk), ih hrest hmem,
        orderedInsert_append_of_forall_not]
      intro y hy hle
      have hkey : key y = k := by simpa using (List.mem_filter.mp hy).2
      have hlt := hfirst _ hmem
      rw [hkey] at hle
      exact absurd hlt (Nat.not_lt.mpr hle)

private theorem byKeys_eq_insertionSort {key : α → β} {rank : β → Nat} {ks : List β}
    (hks : ks.Pairwise fun k k' => rank k < rank k') {xs : List α} (hall : ∀ x ∈ xs, key x ∈ ks) :
    byKeys key ks xs = xs.insertionSort fun a b => rank (key a) ≤ rank (key b) := by
  induction xs with
  | nil => simp [byKeys]
  | cons x rest ih =>
    rw [byKeys_cons hks (hall x List.mem_cons_self), List.insertionSort_cons,
      ih fun y hy => hall y (List.mem_cons_of_mem _ hy)]

/-- What is picked out of a grouped list is what is picked out of the list, sorted by the ranks of
the keys. -/
theorem filter_groupedBy (key : α → β) (xs : List α) (p : α → Bool) :
    (groupedBy key xs).filter p =
      (xs.filter p).insertionSort fun a b => keyRank key xs (key a) ≤ keyRank key xs (key b) := by
  have hgroups : (groupedBy key xs).filter p =
      byKeys key ((firstPerKey key xs).map key) (xs.filter p) := by
    rw [groupedBy, List.filter_flatMap, byKeys, List.flatMap_map]
    apply List.flatMap_congr
    intro first _
    rw [List.filter_filter, List.filter_filter]
    exact List.filter_congr fun x _ => Bool.and_comm _ _
  rw [hgroups, byKeys_eq_insertionSort]
  · exact List.pairwise_map.mpr (pairwise_keyRank_firstPerKey key xs)
  · intro x hx
    obtain ⟨first, hfirst, hkey⟩ := exists_mem_firstPerKey key (List.mem_filter.mp hx).1
    rw [← hkey]
    exact List.mem_map_of_mem hfirst

end Grouping

/-! ### Fields by the ranks of their owners -/

namespace Index

/-- The fields and properties of a name with a place, in the order of their declaration. -/
def declaredFields (idx : Index) (name : String) : List Entry :=
  idx.placedWhere fun e => e.kind.isField && e.name? == some name

/-- The number of fields and properties that are declared before the first one of an owner. -/
def ownerRank (idx : Index) (owner : Option NodeId) : Nat :=
  keyRank (fun e => idx.owner? e.id) (idx.placedWhere (·.kind.isField)) owner

/-- The owner of the first node has a field that is declared no later than any field of the owner of
the second. -/
def OwnerFirst (idx : Index) (a b : Entry) : Prop :=
  idx.ownerRank (idx.owner? a.id) ≤ idx.ownerRank (idx.owner? b.id)

instance (idx : Index) : DecidableRel idx.OwnerFirst := fun a b =>
  inferInstanceAs (Decidable (idx.ownerRank (idx.owner? a.id) ≤ idx.ownerRank (idx.owner? b.id)))

instance (idx : Index) : Std.Total idx.OwnerFirst := ⟨fun _ _ => Nat.le_total _ _⟩

instance (idx : Index) : IsTrans Entry idx.OwnerFirst := ⟨fun _ _ _ => Nat.le_trans⟩

/-- The relation `OwnerFirst` between the nodes of two ids, which alone decide it. -/
def IdOwnerFirst (idx : Index) (a b : NodeId) : Prop :=
  idx.ownerRank (idx.owner? a) ≤ idx.ownerRank (idx.owner? b)

instance (idx : Index) : DecidableRel idx.IdOwnerFirst := fun a b =>
  inferInstanceAs (Decidable (idx.ownerRank (idx.owner? a) ≤ idx.ownerRank (idx.owner? b)))

theorem ownerFirst_iff {idx : Index} {a b : Entry} :
    idx.OwnerFirst a b ↔ idx.IdOwnerFirst a.id b.id :=
  Iff.rfl

/-- The fields and properties of a name, those of one owner side by side. -/
def fieldsByOwner (idx : Index) (name : String) : List Entry :=
  (idx.declaredFields name).insertionSort idx.OwnerFirst

variable {idx : Index} {name : String}

theorem mem_declaredFields {e : Entry} :
    e ∈ idx.declaredFields name ↔
      e ∈ idx.entries ∧ e.range.isSome = true ∧ e.kind.isField = true ∧ e.name? = some name := by
  simp [declaredFields, placedWhere]

theorem pairwise_fieldsByOwner (idx : Index) (name : String) :
    (idx.fieldsByOwner name).Pairwise idx.OwnerFirst :=
  List.pairwise_insertionSort _ _

theorem mem_fieldsByOwner {e : Entry} :
    e ∈ idx.fieldsByOwner name ↔ e ∈ idx.declaredFields name :=
  List.mem_insertionSort _

/-- The first field by owner is the one declared first exactly if no other owner ranks
before its owner. -/
theorem head?_fieldsByOwner {first : Entry} (h : (idx.declaredFields name).head? = some first) :
    ∃ f, (idx.fieldsByOwner name).head? = some f ∧
      (f = first ↔ ∀ g ∈ idx.declaredFields name, idx.OwnerFirst first g) := by
  obtain ⟨rest, hrest⟩ := List.head?_eq_some_iff.mp h
  cases hsorted : idx.fieldsByOwner name with
  | nil =>
    have hmem := mem_fieldsByOwner.mpr (List.mem_of_head? h)
    rw [hsorted] at hmem
    cases hmem
  | cons f others =>
    refine ⟨f, rfl, ?_, ?_⟩
    · rintro rfl g hg
      have hmem := mem_fieldsByOwner.mpr hg
      have hpairwise := idx.pairwise_fieldsByOwner name
      rw [hsorted] at hmem hpairwise
      rcases List.mem_cons.mp hmem with rfl | hmem
      · exact Nat.le_refl _
      · exact List.rel_of_pairwise_cons hpairwise hmem
    · intro hfirst
      have hstays := List.insertionSort_cons_of_forall_rel idx.OwnerFirst (l := rest)
        fun g hg => hfirst g (by rw [hrest]; exact List.mem_cons_of_mem _ hg)
      rw [← hrest] at hstays
      rw [fieldsByOwner, hstays] at hsorted
      exact (List.cons.inj hsorted).1.symm

end Index

namespace Snapshot

variable {s : Snapshot} {name : String}

/-- The ranks of the owners among the records are those among the nodes. -/
theorem keyRank_fields (s : Snapshot) (owner : Option NodeId) :
    keyRank FieldDecl.owner s.declarations.fields owner = s.index.ownerRank owner := by
  have howners : s.declarations.fields.map FieldDecl.owner =
      (s.index.placedWhere (·.kind.isField)).map fun e => s.index.owner? e.id := by
    calc s.declarations.fields.map FieldDecl.owner
      _ = (s.declarations.fields.map FieldDecl.node).map s.index.owner? := by
          rw [List.map_map]
          exact List.map_congr_left fun f hf => (s.described.fields f hf).2
      _ = (s.index.placedWhere (·.kind.isField)).map fun e => s.index.owner? e.id := by
          rw [s.recorded.fields.nodes, List.map_map]
          rfl
  rw [keyRank, howners]
  rfl

theorem map_node_filter_fields (s : Snapshot) (name : String) :
    (s.declarations.fields.filter (·.name == name)).map FieldDecl.node =
      (s.index.declaredFields name).map Entry.id := by
  rw [s.declarations_eq]
  have hlists := s.index.makes_fieldDecl?.lists (q := (·.name == name))
    (p := (·.name? == some name)) s.distinct fun e f hf => by
      simp [(Index.name?_of_fieldDecl? hf).1]
  exact hlists.nodes

/-- The listing of the fields of a name is by owner. -/
theorem map_node_fieldsNamed (s : Snapshot) (name : String) :
    (s.declarations.fieldsNamed name).map FieldDecl.node =
      (s.index.fieldsByOwner name).map Entry.id := by
  have hrecords (f : FieldDecl) (hf : f ∈ s.declarations.fields.filter (·.name == name))
      (g : FieldDecl) (hg : g ∈ s.declarations.fields.filter (·.name == name)) :
      keyRank FieldDecl.owner s.declarations.fields f.owner ≤
        keyRank FieldDecl.owner s.declarations.fields g.owner ↔
          s.index.IdOwnerFirst f.node g.node := by
    rw [keyRank_fields, keyRank_fields, (s.described.fields f (List.mem_filter.mp hf).1).2,
      (s.described.fields g (List.mem_filter.mp hg).1).2]
    rfl
  -- Records and nodes are sorted by the same relation of their ids.
  rw [Declarations.fieldsNamed, filter_groupedBy,
    List.map_insertionSort _ s.index.IdOwnerFirst _ _ hrecords, map_node_filter_fields,
    Index.fieldsByOwner, List.map_insertionSort s.index.OwnerFirst s.index.IdOwnerFirst Entry.id _
      fun _ _ _ _ => Index.ownerFirst_iff]

/-- The listing is in the order of declaration exactly if the declarations come by owner anyway. -/
theorem map_node_fieldsNamed_eq_iff (s : Snapshot) (name : String) :
    (s.declarations.fieldsNamed name).map FieldDecl.node =
        (s.index.declaredFields name).map Entry.id ↔
      (s.index.declaredFields name).Pairwise s.index.OwnerFirst := by
  rw [map_node_fieldsNamed]
  constructor
  · intro h
    have hsorted := s.index.pairwise_fieldsByOwner name
    have hids : ((s.index.fieldsByOwner name).map Entry.id).Pairwise s.index.IdOwnerFirst :=
      List.pairwise_map.mpr (hsorted.imp Index.ownerFirst_iff.mp)
    rw [h] at hids
    exact (List.pairwise_map.mp hids).imp Index.ownerFirst_iff.mpr
  · intro h
    rw [Index.fieldsByOwner, h.insertionSort_eq]

/-- A property whose own class has no field of its name refers to the first listed field
of the name. -/
theorem propertyFor?_eq {id : NodeId}
    (hown : ∀ f ∈ s.index.declaredFields name, s.index.owner? f.id ≠ s.index.owner? id) :
    s.propertyFor? id name = (s.index.fieldsByOwner name).head?.map Entry.id := by
  have hnone : s.declarations.fieldOf? (s.index.owner? id) name = none := by
    cases hf : s.declarations.fieldOf? (s.index.owner? id) name with
    | none => rfl
    | some f =>
      obtain ⟨hmem, hname⟩ := Declarations.mem_of_fieldOf? hf
      have howner : f.owner = s.index.owner? id := by
        simpa using (List.mem_filter.mp (List.mem_of_find?_eq_some hf)).2
      have hnode : f.node ∈ (s.index.declaredFields name).map Entry.id := by
        rw [← map_node_filter_fields]
        exact List.mem_map_of_mem (List.mem_filter.mpr ⟨hmem, by simp [hname]⟩)
      obtain ⟨e, he, hid⟩ := List.mem_map.mp hnode
      have hsame : s.index.owner? e.id = s.index.owner? id := by
        rw [hid, ← howner]
        exact (s.described.fields f hmem).2.symm
      exact absurd hsame (hown e he)
  rw [propertyFor?, hnone, Option.none_or, ← List.head?_map, ← List.head?_map,
    map_node_fieldsNamed]

theorem exists_definitionOf?_of_mem_declaredFields {e : Entry}
    (he : e ∈ s.index.declaredFields name) : ∃ d, s.definitionOf? e = some d := by
  have hid : e.id ∈ (s.index.declaredFields name).map Entry.id := List.mem_map_of_mem he
  rw [← map_node_filter_fields] at hid
  obtain ⟨f, hf, hnode⟩ := List.mem_map.mp hid
  refine ⟨f.definition s.uri, ?_⟩
  rw [← definitionFor?_of_mem (Index.mem_declaredFields.mp he).1, ← hnode]
  exact definitionFor?_of_mem_fields (List.mem_filter.mp hf).1

end Snapshot

namespace Lookup

/-- Only the fields of its document decide what a property refers to. -/
theorem resolve_standard_property {l : Lookup} (he : l.entry ∈ l.snapshot.index.entries)
    {name : String} {range : Option Range} (hk : l.entry.kind = .propertyRef name range) :
    Chain.standard.resolve l = l.alone ∧
      l.lexicalTarget? = some (l.snapshot.propertyFor? l.entry.id name) := by
  have helsewhere : l.elsewhere = .notApplicable := by
    rw [elsewhere, hk]
    split <;> rfl
  have hnot : l.snapshot.index.declares l.entry = false := by
    apply Index.not_declares_of_use l.snapshot.distinct he <;> rw [hk] <;> rfl
  refine ⟨by rw [resolve_standard, helsewhere], ?_⟩
  rw [lexicalTarget?, hnot, hk]
  rfl

end Lookup

namespace Snapshot

/-- The fields of a name are listed by owner, and a property without one in its class resolves to
the first listed. -/
theorem fieldsNamed_by_owner (s : Snapshot) (name : String) :
    (s.declarations.fieldsNamed name).map FieldDecl.node =
      (s.index.fieldsByOwner name).map Entry.id ∧
    ((s.declarations.fieldsNamed name).map FieldDecl.node =
        (s.index.declaredFields name).map Entry.id ↔
      (s.index.declaredFields name).Pairwise s.index.OwnerFirst) ∧
    ∀ auxiliary, ∀ e ∈ s.index.entries, ∀ range, e.kind = .propertyRef name range →
      (∀ f ∈ s.index.declaredFields name, s.index.owner? f.id ≠ s.index.owner? e.id) →
      (s.index.declaredFields name = [] →
        Chain.standard.resolve ⟨s, auxiliary, e⟩ = .error .nodeNotFound) ∧
      ∀ first, (s.index.declaredFields name).head? = some first →
        ∃ f d, (s.index.fieldsByOwner name).head? = some f ∧ s.definitionOf? f = some d ∧
          Chain.standard.resolve ⟨s, auxiliary, e⟩ = .ok d ∧
          (f = first ↔ ∀ g ∈ s.index.declaredFields name, s.index.OwnerFirst first g) := by
  refine ⟨s.map_node_fieldsNamed name, s.map_node_fieldsNamed_eq_iff name, ?_⟩
  intro auxiliary e he range hk hown
  obtain ⟨hresolve, htarget⟩ := Lookup.resolve_standard_property (l := ⟨s, auxiliary, e⟩) he hk
  rw [propertyFor?_eq hown] at htarget
  rw [hresolve]
  constructor
  · intro hempty
    rw [Lookup.alone, htarget, Index.fieldsByOwner, hempty]
    rfl
  · intro first hfirst
    obtain ⟨f, hf, hiff⟩ := Index.head?_fieldsByOwner hfirst
    have hmem := Index.mem_fieldsByOwner.mp (List.mem_of_head? hf)
    obtain ⟨d, hd⟩ := exists_definitionOf?_of_mem_declaredFields hmem
    refine ⟨f, d, hf, hd, Lookup.alone_eq_ok_iff.mpr ⟨f.id, ?_, ?_⟩, hiff⟩
    · rw [htarget, hf]
      rfl
    · rw [definitionFor?_of_mem (Index.mem_declaredFields.mp hmem).1, hd]

/-- A class with fields `size` and `name` and, between them, a nested class with a field `name`. The
script uses the property `name`. -/
private def nested : Snapshot :=
  .ofParsed (.clean ⟨⟨"file:///nested.groovy"⟩, 1⟩
    ⟨⟨0⟩, .moduleRoot, none,
      [⟨⟨1⟩, .classDecl "Outer" (some (.ofCorners 0 6 0 11)) false, some (.ofCorners 0 0 4 1),
        [⟨⟨2⟩, .fieldDecl "size" (some (.ofCorners 1 6 1 10)) none, some (.ofCorners 1 2 1 10), []⟩,
        ⟨⟨3⟩, .classDecl "Inner" (some (.ofCorners 2 8 2 13)) false, some (.ofCorners 2 2 2 26),
          [⟨⟨4⟩, .fieldDecl "name" (some (.ofCorners 2 20 2 24)) none, some (.ofCorners 2 16 2 24),
            []⟩]⟩,
        ⟨⟨5⟩, .fieldDecl "name" (some (.ofCorners 3 6 3 10)) none, some (.ofCorners 3 2 3 10),
          []⟩]⟩,
      ⟨⟨6⟩, .propertyRef "name" (some (.ofCorners 5 4 5 8)), some (.ofCorners 5 0 5 8),
        [⟨⟨7⟩, .variableRef "box", some (.ofCorners 5 0 5 3), []⟩]⟩]⟩) 0

private def nameUse : Entry :=
  ⟨⟨6⟩, .propertyRef "name" (some (.ofCorners 5 4 5 8)), some (.ofCorners 5 0 5 8), [⟨7⟩], [⟨0⟩]⟩

private def innerName : Entry :=
  ⟨⟨4⟩, .fieldDecl "name" (some (.ofCorners 2 20 2 24)) none, some (.ofCorners 2 16 2 24), [],
    [⟨3⟩, ⟨1⟩, ⟨0⟩]⟩

/-- The field of the inner class is declared first, but that of the outer class is listed first, and
the property resolves to it. -/
theorem fieldsNamed_by_owner_nested :
    (nested.declarations.fieldsNamed "name").map FieldDecl.node = [⟨5⟩, ⟨4⟩] ∧
    (nested.index.declaredFields "name").map Entry.id = [⟨4⟩, ⟨5⟩] ∧
    ∃ f d, f.id = ⟨5⟩ ∧ nested.definitionOf? f = some d ∧
      Chain.standard.resolve ⟨nested, [], nameUse⟩ = .ok d := by
  obtain ⟨hlisted, -, hproperty⟩ := fieldsNamed_by_owner nested "name"
  refine ⟨hlisted.trans (by decide), by decide, ?_⟩
  obtain ⟨-, hfirst⟩ := hproperty [] nameUse (by decide) _ rfl (by decide)
  obtain ⟨f, d, hf, hd, hresolve, -⟩ := hfirst _ rfl
  refine ⟨f, d, ?_, hd, hresolve⟩
  have hhead : (nested.index.fieldsByOwner "name").head?.map Entry.id = some ⟨5⟩ := by decide
  rw [hf] at hhead
  exact Option.some.inj hhead

/-- Neither are the fields of a name always listed as declared, nor does a property always resolve
to the first one declared. -/
theorem not_forall_fieldsNamed_declared :
    (¬ ∀ (s : Snapshot) (name : String),
      (s.declarations.fieldsNamed name).map FieldDecl.node =
        (s.index.declaredFields name).map Entry.id) ∧
    ¬ ∀ (s : Snapshot) (name : String), ∀ e ∈ s.index.entries, ∀ range,
      e.kind = .propertyRef name range →
      (∀ f ∈ s.index.declaredFields name, s.index.owner? f.id ≠ s.index.owner? e.id) →
      ∀ first, (s.index.declaredFields name).head? = some first →
        ∃ d, s.definitionOf? first = some d ∧ Chain.standard.resolve ⟨s, [], e⟩ = .ok d := by
  constructor
  · intro h
    exact absurd (h nested "name") (by decide)
  · intro h
    obtain ⟨d, hd, hresolve⟩ := h nested "name" nameUse (by decide) _ rfl (by decide) innerName rfl
    have hinner : d.node = innerName.id := (definitionOf?_eq_some hd).2.2.1
    have houter : (Chain.standard.resolve ⟨nested, [], nameUse⟩).toOption.map Definition.node =
        some ⟨5⟩ := by decide
    rw [hresolve] at houter
    have hnode : d.node = ⟨5⟩ := Option.some.inj houter
    exact absurd (hinner.symm.trans hnode) (by decide)

end Snapshot

end GroovyIndex
