import Mathlib.Data.List.Forall2
import GroovyIndex.Proofs.IndexStructure
import GroovyIndex.Proofs.Innermost
import GroovyIndex.Proofs.Records
import GroovyIndex.Query.Outline

/-!
# The outline and the tree

In pre-order the symbols of an outline stand one by one for nodes of the index: classes of the
source, their members, and variables of the script. A symbol says what the definition at its node
says, and symbols nest as the classes do. One invariant about the nodes above carries the descent.
-/

namespace GroovyIndex

namespace Kind

/-- The node is a class that the source spells out. -/
def isNamedClass : Kind → Bool
  | classDecl _ _ synthetic => !synthetic
  | _ => false

/-- The node is a class that the source spells out, or a member. -/
def isOutlined : Kind → Bool
  | classDecl _ _ synthetic => !synthetic
  | methodDecl .. | fieldDecl .. | propertyDecl .. => true
  | _ => false

theorem isDeclaration_of_isOutlined {k : Kind} (h : k.isOutlined = true) :
    k.isDeclaration = true := by
  cases k <;> first | rfl | cases h

theorem isOutlined_of_isNamedClass {k : Kind} (h : k.isNamedClass = true) :
    k.isOutlined = true := by
  cases k <;> first | exact h | cases h

theorem isClass_of_isNamedClass {k : Kind} (h : k.isNamedClass = true) : k.isClass = true := by
  cases k <;> first | rfl | cases h

theorem isDeclaration_of_isVariableRef {k : Kind} (h : k.isVariableRef = true) :
    k.isDeclaration = false := by
  cases k <;> first | rfl | cases h

theorem isClass_of_isDeclarationStatement {k : Kind} (h : k.isDeclarationStatement = true) :
    k.isClass = false := by
  cases k <;> first | rfl | cases h

theorem isDeclarationStatement_of_isOutlined {k : Kind} (h : k.isOutlined = true) :
    k.isDeclarationStatement = false := by
  cases k <;> first | rfl | cases h

end Kind

namespace OutlineSymbol

mutual
/-- The symbols of a tree of symbols, each before those below it and with those around
it, innermost first. -/
def rows (above : List OutlineSymbol) : OutlineSymbol → List (List OutlineSymbol × OutlineSymbol)
  | symbol@⟨_, _, _, _, _, children⟩ => (above, symbol) :: forestRows (symbol :: above) children
/-- The symbols of some trees, each with those around it. -/
def forestRows (above : List OutlineSymbol) :
    List OutlineSymbol → List (List OutlineSymbol × OutlineSymbol)
  | [] => []
  | symbol :: rest => symbol.rows above ++ forestRows above rest
end

theorem rows_eq (above : List OutlineSymbol) (symbol : OutlineSymbol) :
    symbol.rows above = (above, symbol) :: forestRows (symbol :: above) symbol.children := by
  cases symbol
  rw [rows]

@[simp]
theorem forestRows_nil (above : List OutlineSymbol) : forestRows above [] = [] := by
  rw [forestRows]

@[simp]
theorem forestRows_singleton (above : List OutlineSymbol) (symbol : OutlineSymbol) :
    forestRows above [symbol] = symbol.rows above := by
  rw [forestRows, forestRows_nil, List.append_nil]

theorem forestRows_append (above : List OutlineSymbol) (a b : List OutlineSymbol) :
    forestRows above (a ++ b) = forestRows above a ++ forestRows above b := by
  induction a with
  | nil => simp
  | cons symbol rest ih => rw [List.cons_append, forestRows, forestRows, ih, List.append_assoc]

end OutlineSymbol

/-! ### Nodes with a symbol -/

namespace Index

variable (idx : Index)

/-- The classes of the source among some nodes, as far as they have a place; not the root. -/
def namedClasses (above : List Entry) : List Entry :=
  above.filter fun a => a ≠ idx.root ∧ a.range.isSome ∧ a.kind.isNamedClass

/-- Below some nodes an outline goes on: each is a class or has no place, or is the root. -/
def Opens (above : List Entry) : Prop :=
  ∀ a ∈ above, a ≠ idx.root → a.range = none ∨ a.kind.isClass = true

instance (above : List Entry) : Decidable (idx.Opens above) :=
  inferInstanceAs (Decidable (∀ a ∈ above, a ≠ idx.root → a.range = none ∨ a.kind.isClass = true))

/-- What stands below some nodes belongs to the script: of the classes among them that have a place,
the innermost is synthetic, or there is none. -/
def inScript (above : List Entry) : Bool :=
  (above.find? fun a => a ≠ idx.root ∧ a.range.isSome ∧ a.kind.isClass).all (!·.kind.isNamedClass)

/-- The node has a symbol: it is a class of the source, a member, or a variable of the script, and
the outline goes on down to what declares it. -/
def IsOutlined (e : Entry) : Prop :=
  e.range.isSome ∧ ∃ declarer ∈ idx.declarer? e, declarer ≠ idx.root ∧ declarer.range.isSome ∧
    idx.Opens (idx.ancestors declarer.id) ∧
    (e.kind.isOutlined ∨ e.kind.isVariableRef ∧ idx.inScript (idx.ancestors declarer.id))

instance : DecidablePred idx.IsOutlined := fun e =>
  inferInstanceAs (Decidable (e.range.isSome ∧ ∃ declarer ∈ idx.declarer? e, declarer ≠ idx.root ∧
    declarer.range.isSome ∧ idx.Opens (idx.ancestors declarer.id) ∧
    (e.kind.isOutlined ∨ e.kind.isVariableRef ∧ idx.inScript (idx.ancestors declarer.id))))

/-- The nodes that have a symbol, in pre-order. -/
def outlined : List Entry := idx.entries.filter idx.IsOutlined

variable {idx}

/-- The variable that a statement declares stands right below it. -/
theorem isParent_of_declaredVariable? (hd : idx.Distinct) {st v : Entry} (hst : st ∈ idx.entries)
    (h : idx.declaredVariable? st.id = some v) : idx.IsParent st v :=
  (mem_children_iff hd hst).mp (List.mem_of_head? (Option.filter_eq_some_iff.mp h).1)

/-- What declares is the node itself, or the statement right above whose variable it is. -/
theorem declarer?_eq_some (hd : idx.Distinct) {e declarer : Entry} (he : e ∈ idx.entries)
    (h : idx.declarer? e = some declarer) :
    (declarer = e ∧ e.kind.isDeclaration = true) ∨
      (idx.IsParent declarer e ∧ declarer.kind.isDeclarationStatement = true ∧
        idx.declaredVariable? declarer.id = some e) := by
  unfold declarer? at h
  split at h
  · next hkind => exact Or.inl ⟨(Option.some.inj h).symm, hkind⟩
  · obtain ⟨hparent, hcond⟩ := Option.filter_eq_some_iff.mp h
    obtain ⟨hstatement, hany⟩ := Bool.and_eq_true_iff.mp hcond
    obtain ⟨v, hv, hid⟩ := (Option.any_eq_true _ _).mp hany
    have hlink := (parent?_eq_some_iff hd he).mp hparent
    have hchild := isParent_of_declaredVariable? hd hlink.1 hv
    cases eq_of_id_eq hd hchild.2.1 he (beq_iff_eq.mp hid)
    exact Or.inr ⟨hlink, hstatement, hv⟩

/-- A class, and a node without a place, let the outline go on. -/
theorem Opens.cons {p : Entry} {above : List Entry} (h : idx.Opens above)
    (hp : p.range = none ∨ p.kind.isClass = true) : idx.Opens (p :: above) := by
  intro a ha hne
  rcases List.mem_cons.mp ha with rfl | ha
  · exact hp
  · exact h a ha hne

/-- Nothing else does. -/
theorem Opens.notMem {p : Entry} {above : List Entry} (h : idx.Opens above) (hne : p ≠ idx.root)
    (hplaced : p.range.isSome = true) (hclass : p.kind.isClass = false) : p ∉ above := by
  intro hp
  rcases h p hp hne with hnone | hisClass
  · rw [hnone] at hplaced
    cases hplaced
  · rw [hclass] at hisClass
    cases hisClass

/-- Where the outline goes on, a class of the source and a member have a symbol. -/
theorem isOutlined_of_opens {e : Entry} (hne : e ≠ idx.root)
    (hopens : idx.Opens (idx.ancestors e.id)) (hplaced : e.range.isSome = true)
    (hkind : e.kind.isOutlined = true) : idx.IsOutlined e :=
  ⟨hplaced, e, declarer?_of_isDeclaration idx (Kind.isDeclaration_of_isOutlined hkind), hne,
    hplaced, hopens, Or.inl hkind⟩

/-- Where the outline goes on, nothing else has a symbol: right above a variable is its statement,
which is no class. -/
theorem not_isOutlined_of_opens (hd : idx.Distinct) {e : Entry} (he : e ∈ idx.entries)
    (hopens : idx.Opens (idx.ancestors e.id)) (hkind : e.kind.isOutlined = false) :
    ¬ idx.IsOutlined e := by
  rintro ⟨-, declarer, hdeclarer, hne, hplaced, -, houtlined | ⟨hvar, -⟩⟩
  · rw [hkind] at houtlined
    cases houtlined
  · rcases declarer?_eq_some hd he hdeclarer with ⟨-, hself⟩ | ⟨hparent, hstatement, -⟩
    · rw [Kind.isDeclaration_of_isVariableRef hvar] at hself
      cases hself
    · have hmem : declarer ∈ idx.ancestors e.id := by
        rw [hparent.ancestors_eq hd]
        exact List.mem_cons_self
      exact hopens.notMem hne hplaced (Kind.isClass_of_isDeclarationStatement hstatement) hmem

/-- Below a node where the outline stops, only the variable that it declares can have a symbol. -/
theorem declaredVariable?_of_isOutlined (hd : idx.Distinct) {p e : Entry} (he : e ∈ idx.entries)
    (hp : p ∈ idx.ancestors e.id) (hne : p ≠ idx.root) (hplaced : p.range.isSome = true)
    (hclass : p.kind.isClass = false) (h : idx.IsOutlined e) :
    p.kind.isDeclarationStatement = true ∧ idx.declaredVariable? p.id = some e := by
  obtain ⟨-, declarer, hdeclarer, -, -, hopens, -⟩ := h
  have hshut := hopens.notMem hne hplaced hclass
  rcases declarer?_eq_some hd he hdeclarer with ⟨rfl, -⟩ | ⟨hparent, hstatement, hvar⟩
  · exact absurd hp hshut
  · rw [hparent.ancestors_eq hd] at hp
    rcases List.mem_cons.mp hp with rfl | habove
    · exact ⟨hstatement, hvar⟩
    · exact absurd habove hshut

/-- The variable of a statement of the script has a symbol if it has a place. -/
theorem isOutlined_declaredVariable? (hd : idx.Distinct) {st v : Entry} (hst : st ∈ idx.entries)
    (hne : st ≠ idx.root) (hopens : idx.Opens (idx.ancestors st.id))
    (hplaced : st.range.isSome = true) (hkind : st.kind.isDeclarationStatement = true)
    (hv : idx.declaredVariable? st.id = some v) :
    idx.IsOutlined v ↔ v.range.isSome = true ∧ idx.inScript (idx.ancestors st.id) = true := by
  have hdeclarer := declarer?_of_declaredVariable? hd hst hkind hv
  have hvar := (Option.filter_eq_some_iff.mp hv).2
  constructor
  · rintro ⟨hrange, declarer, hdeclarer', -, -, -, houtlined | ⟨-, hscript⟩⟩
    · have hself := Kind.isDeclaration_of_isOutlined houtlined
      rw [Kind.isDeclaration_of_isVariableRef hvar] at hself
      cases hself
    · cases hdeclarer.symm.trans hdeclarer'
      exact ⟨hrange, hscript⟩
  · rintro ⟨hrange, hscript⟩
    exact ⟨hrange, st, hdeclarer, hne, hplaced, hopens, Or.inr ⟨hvar, hscript⟩⟩

/-- The entries above a row are those of the ids above it. -/
theorem ancestors_of_row (hd : idx.Distinct) {path : List NodeId} {n : Node}
    (h : (path, n) ∈ Node.forestRows [] [idx.tree]) :
    idx.ancestors n.id = path.filterMap idx.get? := by
  have hget : idx.get? n.id = some (n.entry path) := get?_of_mem hd (entry_mem_of_row h)
  rw [ancestors, hget]
  rfl

/-- The entries above what is right below a row are its own and those above it. -/
theorem filterMap_get?_of_row (hd : idx.Distinct) {path : List NodeId} {n : Node}
    (h : (path, n) ∈ Node.forestRows [] [idx.tree]) :
    (n.id :: path).filterMap idx.get? = n.entry path :: idx.ancestors n.id := by
  have hget : idx.get? n.id = some (n.entry path) := get?_of_mem hd (entry_mem_of_row h)
  rw [List.filterMap_cons_some hget, ancestors_of_row hd h]

/-- What is below a row is in the index, and the row's node is above it. -/
theorem mem_of_mem_forestEntries (hd : idx.Distinct) {above : List NodeId} {n : Node} {e : Entry}
    (hrow : (above, n) ∈ Node.forestRows [] [idx.tree])
    (he : e ∈ Node.forestEntries (n.id :: above) n.children) :
    e ∈ idx.entries ∧ n.entry above ∈ idx.ancestors e.id := by
  rw [Node.forestEntries_eq] at he
  obtain ⟨⟨path, m⟩, hm, rfl⟩ := List.mem_map.mp he
  have hmrow := (Node.forestRows_sublist_of_mem hrow).subset hm
  refine ⟨entry_mem_of_row hmrow, ?_⟩
  obtain ⟨between, rfl⟩ := Node.path_of_mem_forestRows hm
  change _ ∈ idx.ancestors m.id
  rw [ancestors_of_row hd hmrow, List.filterMap_append, filterMap_get?_of_row hd hrow]
  exact List.mem_append_right _ List.mem_cons_self

theorem nodup_forestEntries (hd : idx.Distinct) {above : List NodeId} {n : Node}
    (hrow : (above, n) ∈ Node.forestRows [] [idx.tree]) :
    (Node.forestEntries (n.id :: above) n.children).Nodup := by
  have hsub := (Node.forestRows_sublist_of_mem hrow).map fun row => row.2.entry row.1
  rw [← entries_eq_map_rows, ← Node.forestEntries_eq] at hsub
  exact hsub.nodup (List.Nodup.of_map _ hd)

/-- The variable that a node declares is below it. -/
theorem declaredVariable?_mem_forestEntries (hd : idx.Distinct) {above : List NodeId} {n : Node}
    {v : Entry} (hrow : (above, n) ∈ Node.forestRows [] [idx.tree])
    (hv : idx.declaredVariable? n.id = some v) :
    v ∈ Node.forestEntries (n.id :: above) n.children := by
  have hhead := (Option.filter_eq_some_iff.mp hv).1
  rw [children_of_row hd hrow] at hhead
  obtain ⟨c, hc, rfl⟩ := List.mem_map.mp (List.mem_of_head? hhead)
  rw [Node.forestEntries_eq]
  exact List.mem_map.mpr ⟨_, Node.mem_forestRows_of_mem hc, rfl⟩

private theorem eq_toList_of_nodup {l : List Entry} {o : Option Entry} (hl : l.Nodup)
    (h : ∀ e, e ∈ l ↔ o = some e) : l = o.toList := by
  cases o with
  | none => exact List.eq_nil_iff_forall_not_mem.mpr fun e he => nomatch (h e).mp he
  | some v =>
    apply List.perm_singleton.mp
    rw [List.perm_ext_iff_of_nodup hl (List.nodup_singleton v)]
    intro e
    rw [h e, Option.some.injEq, List.mem_singleton, eq_comm]

/-- A node without a symbol is left out. -/
theorem filter_entries_of_not_isOutlined {above : List NodeId} {n : Node}
    (h : ¬ idx.IsOutlined (n.entry above)) :
    (n.entries above).filter idx.IsOutlined =
      (Node.forestEntries (n.id :: above) n.children).filter idx.IsOutlined := by
  rw [Node.entries_eq_cons, List.filter_cons, if_neg (by simpa using h)]

/-- A node with a symbol comes before those below it. -/
theorem filter_entries_of_isOutlined {above : List NodeId} {n : Node}
    (h : idx.IsOutlined (n.entry above)) :
    (n.entries above).filter idx.IsOutlined =
      n.entry above :: (Node.forestEntries (n.id :: above) n.children).filter idx.IsOutlined := by
  rw [Node.entries_eq_cons, List.filter_cons, if_pos (decide_eq_true h)]

section Stops

/-! A node where the outline stops: it has a place, and is no class. -/

variable (hd : idx.Distinct) {above : List NodeId} {n : Node}
  (hrow : (above, n) ∈ Node.forestRows [] [idx.tree]) (hne : n.entry above ≠ idx.root)
  (hplaced : n.range.isSome = true) (hclass : n.kind.isClass = false)
include hd hrow hne hplaced hclass

/-- Nothing below it has a symbol, unless it declares a variable. -/
theorem filter_forestEntries_eq_nil (hkind : n.kind.isDeclarationStatement = false) :
    (Node.forestEntries (n.id :: above) n.children).filter idx.IsOutlined = [] := by
  rw [List.filter_eq_nil_iff]
  intro e he houtlined
  obtain ⟨hmem, habove⟩ := mem_of_mem_forestEntries hd hrow he
  have hst := (declaredVariable?_of_isOutlined hd hmem habove hne hplaced hclass
    (of_decide_eq_true houtlined)).1
  rw [Node.entry, hkind] at hst
  cases hst

/-- If it declares a variable, only that one has a symbol, if it has a place and belongs
to the script. -/
theorem filter_forestEntries_eq_toList (hopens : idx.Opens (idx.ancestors n.id))
    (hkind : n.kind.isDeclarationStatement = true) :
    (Node.forestEntries (n.id :: above) n.children).filter idx.IsOutlined =
      ((idx.declaredVariable? n.id).filter fun v =>
        v.range.isSome && idx.inScript (idx.ancestors n.id)).toList := by
  have hvariable (v : Entry) (hv : idx.declaredVariable? n.id = some v) :=
    isOutlined_declaredVariable? hd (entry_mem_of_row hrow) hne hopens hplaced hkind hv
  apply eq_toList_of_nodup ((nodup_forestEntries hd hrow).filter _)
  intro e
  rw [List.mem_filter, decide_eq_true_iff, Option.filter_eq_some_iff, Bool.and_eq_true]
  constructor
  · rintro ⟨he, houtlined⟩
    obtain ⟨hmem, habove⟩ := mem_of_mem_forestEntries hd hrow he
    have hv := (declaredVariable?_of_isOutlined hd hmem habove hne hplaced hclass houtlined).2
    exact ⟨hv, (hvariable e hv).mp houtlined⟩
  · rintro ⟨hv, hcond⟩
    exact ⟨declaredVariable?_mem_forestEntries hd hrow hv, (hvariable e hv).mpr hcond⟩

end Stops

end Index

/-! ### Symbols and definitions -/

namespace Snapshot

/-- What an outline adds to a definition: to a method or constructor the label of the signature that
is on record, and to anything else the type. -/
def Details (s : Snapshot) (d : Definition) (detail : Option String) : Prop :=
  if d.kind = .method ∨ d.kind = .constructor then
    ∃ m ∈ s.declarations.methods, m.node = d.node ∧ detail = some m.signature.label
  else detail = d.typeName

/-- A symbol shows the definition at a node. -/
def Shows (s : Snapshot) (symbol : OutlineSymbol) (e : Entry) : Prop :=
  ∃ d, s.definitionFor? e.id = some d ∧ symbol.name = d.name ∧ symbol.kind = d.kind ∧
    symbol.range = d.range ∧ symbol.selectionRange = d.selectionRange ∧ s.Details d symbol.detail

/-- A symbol shows the definition at a node, and those around it show the classes of the source
around the node. -/
def Lists (s : Snapshot) (row : List OutlineSymbol × OutlineSymbol) (e : Entry) : Prop :=
  s.Shows row.2 e ∧ List.Forall₂ s.Shows row.1 (s.index.namedClasses (s.index.ancestors e.id))

variable {s : Snapshot}

/-- The method at a node where one is declared is on record. -/
theorem details_methodAt? {id : NodeId} {d : Definition} (h : s.definitionFor? id = some d)
    (hkind : d.kind = .method ∨ d.kind = .constructor) :
    s.Details d ((s.declarations.methodAt? id).map (·.signature.label)) := by
  rw [Details, if_pos hkind]
  obtain ⟨m, hm, hdef⟩ := exists_mem_methods_of_definitionFor? h hkind
  have hnode : m.node = id := by
    rw [← (node_of_definitionFor? h).1, ← hdef]
    rfl
  have hsome : (s.declarations.methodAt? id).isSome = true :=
    List.find?_isSome.mpr ⟨m, hm, beq_iff_eq.mpr hnode⟩
  obtain ⟨found, hfound⟩ := Option.isSome_iff_exists.mp hsome
  refine ⟨found, List.mem_of_find?_eq_some hfound, ?_, by rw [hfound]; rfl⟩
  have hid := List.find?_some hfound
  rw [(node_of_definitionFor? h).1]
  exact beq_iff_eq.mp hid

/-- The symbol of a class of the source or of a member shows its definition, with
the right detail. -/
theorem shows_of_isOutlined {e : Entry} {range : Range} {symbol : OutlineSymbol}
    (he : e ∈ s.index.entries) (hrange : e.range = some range)
    (houtlined : e.kind.isOutlined = true) (hname : e.kind.declaredName? = some symbol.name)
    (hkind : e.kind.symbolKind? = some symbol.kind) (hsymbol : symbol.range = range)
    (hselection : symbol.selectionRange = e.kind.selectionRange range)
    (hdetail : symbol.detail = if symbol.kind = .method ∨ symbol.kind = .constructor then
      (s.declarations.methodAt? e.id).map (·.signature.label) else e.kind.declaredType?) :
    s.Shows symbol e := by
  have hdef := definitionFor?_of_declarer he hrange
    (s.index.declarer?_of_isDeclaration (Kind.isDeclaration_of_isOutlined houtlined)) hkind hname
  refine ⟨_, hdef, rfl, rfl, ?_, hselection, ?_⟩
  · rw [hsymbol, hrange]
    rfl
  · by_cases hmethod : symbol.kind = .method ∨ symbol.kind = .constructor
    · rw [hdetail, if_pos hmethod]
      exact details_methodAt? hdef hmethod
    · rw [Details, if_neg hmethod, hdetail, if_neg hmethod]

/-- The symbol of the variable of a statement shows the definition of the variable. -/
theorem shows_of_declaredVariable? {st v : Entry} {range nameRange : Range} {name : String}
    {type : Option String} (hst : st ∈ s.index.entries) (hrange : st.range = some range)
    (hkind : st.kind = .declaration type) (hvar : s.index.declaredVariable? st.id = some v)
    (hv : v.kind = .variableRef name) (hplace : v.range = some nameRange) :
    s.Shows ⟨name, .localVar, type, range, nameRange, []⟩ v := by
  have hdeclarer := Index.declarer?_of_declaredVariable? s.distinct hst (by rw [hkind]; rfl) hvar
  have hmem := (Index.isParent_of_declaredVariable? s.distinct hst hvar).2.1
  have hsymbol : v.kind.symbolKind? = some .localVar := by rw [hv]; rfl
  have hname : v.kind.declaredName? = some name := by rw [hv]; rfl
  refine ⟨_, definitionFor?_of_declarer hmem hplace hdeclarer hsymbol hname, rfl, rfl, ?_, ?_, ?_⟩
  · rw [hrange]
    rfl
  · rw [hv]
    rfl
  · rw [hkind]
    rfl

/-! ### The descent -/

/-- What the outline knows below some nodes: it goes on there, it can tell the script, and the
symbols around show the classes of the source. -/
structure OutlinesBelow (s : Snapshot) (above : List Entry) (script : Bool)
    (symbols : List OutlineSymbol) : Prop where
  opens : s.index.Opens above
  script_eq : s.index.inScript above = script
  shown : List.Forall₂ s.Shows symbols (s.index.namedClasses above)

namespace OutlinesBelow

variable {p : Entry} {above : List Entry} {script : Bool} {symbols : List OutlineSymbol}

theorem root (s : Snapshot) : s.OutlinesBelow [s.index.root] true [] where
  opens := by
    intro a ha hne
    exact absurd (List.mem_singleton.mp ha) hne
  script_eq := by simp [Index.inScript]
  shown := by simp [Index.namedClasses]

/-- A node without a place is passed. -/
theorem unplaced (h : s.OutlinesBelow above script symbols) (hp : p.range = none) :
    s.OutlinesBelow (p :: above) script symbols where
  opens := h.opens.cons (Or.inl hp)
  script_eq := by
    rw [← h.script_eq]
    simp [Index.inScript, hp]
  shown := by
    have hsame : s.index.namedClasses (p :: above) = s.index.namedClasses above := by
      simp [Index.namedClasses, hp]
    rw [hsame]
    exact h.shown

/-- Below a synthetic class is the script. -/
theorem synthetic (h : s.OutlinesBelow above script symbols) (hne : p ≠ s.index.root)
    (hplaced : p.range.isSome = true) (hclass : p.kind.isClass = true)
    (hnamed : p.kind.isNamedClass = false) : s.OutlinesBelow (p :: above) true symbols where
  opens := h.opens.cons (Or.inr hclass)
  script_eq := by simp [Index.inScript, hne, hplaced, hclass, hnamed]
  shown := by
    have hsame : s.index.namedClasses (p :: above) = s.index.namedClasses above := by
      simp [Index.namedClasses, hnamed]
    rw [hsame]
    exact h.shown

/-- Below a class of the source its symbol is around. -/
theorem named (h : s.OutlinesBelow above script symbols) (hne : p ≠ s.index.root)
    (hplaced : p.range.isSome = true) (hnamed : p.kind.isNamedClass = true) {symbol : OutlineSymbol}
    (hsymbol : s.Shows symbol p) : s.OutlinesBelow (p :: above) false (symbol :: symbols) where
  opens := h.opens.cons (Or.inr (Kind.isClass_of_isNamedClass hnamed))
  script_eq := by
    simp [Index.inScript, hne, hplaced, hnamed, Kind.isClass_of_isNamedClass hnamed]
  shown := by
    have hmore : s.index.namedClasses (p :: above) = p :: s.index.namedClasses above := by
      simp [Index.namedClasses, hne, hplaced, hnamed]
    rw [hmore]
    exact .cons hsymbol h.shown

end OutlinesBelow

/-- A symbol with nothing below it is listed by itself. -/
theorem lists_leaf {symbol : OutlineSymbol} {symbols : List OutlineSymbol} {e : Entry}
    (hleaf : symbol.children = []) (hsymbol : s.Shows symbol e)
    (hshown : List.Forall₂ s.Shows symbols (s.index.namedClasses (s.index.ancestors e.id))) :
    List.Forall₂ s.Lists (OutlineSymbol.forestRows symbols [symbol]) [e] := by
  rw [OutlineSymbol.forestRows_singleton, OutlineSymbol.rows_eq, hleaf,
    OutlineSymbol.forestRows_nil]
  exact .cons ⟨hsymbol, hshown⟩ .nil

/-- A statement has the symbol of a variable exactly if it declares one that has a place. -/
theorem variableSymbol?_cases {above : List NodeId} {n : Node}
    (hrow : (above, n) ∈ Node.forestRows [] [s.index.tree]) (type : Option String) (range : Range) :
    (Node.variableSymbol? type range n.children = none ∧
        (s.index.declaredVariable? n.id).filter (·.range.isSome) = none) ∨
      ∃ name nameRange v,
        Node.variableSymbol? type range n.children =
          some ⟨name, .localVar, type, range, nameRange, []⟩ ∧
        s.index.declaredVariable? n.id = some v ∧ v.kind = .variableRef name ∧
        v.range = some nameRange := by
  rw [Index.declaredVariable?, Index.children_of_row s.distinct hrow, List.head?_map]
  unfold Node.variableSymbol?
  split
  · next id name nameRange children hhead =>
    rw [hhead]
    exact Or.inr ⟨name, nameRange, _, rfl, rfl, rfl, rfl⟩
  · next hother =>
    refine Or.inl ⟨rfl, ?_⟩
    rw [Option.filter_filter, Option.filter_eq_none_iff]
    intro v hv hcond
    obtain ⟨⟨id, kind, range, children⟩, hhead, rfl⟩ := Option.map_eq_some_iff.mp hv
    obtain ⟨hkind, hplaced⟩ := Bool.and_eq_true_iff.mp hcond
    obtain ⟨nameRange, rfl⟩ := Option.isSome_iff_exists.mp hplaced
    cases kind <;> cases hkind
    exact hother _ _ _ _ hhead

section Node

variable {above : List NodeId} {n : Node} {script : Bool} {symbols : List OutlineSymbol}
  (hrow : (above, n) ∈ Node.forestRows [] [s.index.tree]) (hne : n.entry above ≠ s.index.root)
  (hat : s.OutlinesBelow (s.index.ancestors n.id) script symbols)
include hrow hne hat

/-- The symbol of a member is listed by itself. -/
theorem lists_member {symbol : OutlineSymbol} (hplaced : n.range.isSome = true)
    (hkind : n.kind.isOutlined = true) (hclass : n.kind.isClass = false)
    (hsymbol : s.Shows symbol (n.entry above)) (hleaf : symbol.children = []) :
    List.Forall₂ s.Lists (OutlineSymbol.forestRows symbols [symbol])
      ((n.entries above).filter s.index.IsOutlined) := by
  have hstatement := Kind.isDeclarationStatement_of_isOutlined hkind
  have houtlined := Index.isOutlined_of_opens hne hat.opens hplaced hkind
  rw [Index.filter_entries_of_isOutlined houtlined,
    Index.filter_forestEntries_eq_nil s.distinct hrow hne hplaced hclass hstatement]
  exact lists_leaf hleaf hsymbol hat.shown

/-- A statement of the script lists the variable that it declares. -/
theorem lists_declaration {range : Range} {type : Option String} (hrange : n.range = some range)
    (hkind : n.kind = .declaration type) :
    List.Forall₂ s.Lists
      (OutlineSymbol.forestRows symbols
        (if script then (Node.variableSymbol? type range n.children).toList else []))
      ((n.entries above).filter s.index.IsOutlined) := by
  have hmem : n.entry above ∈ s.index.entries := Index.entry_mem_of_row hrow
  have hnot := Index.not_isOutlined_of_opens s.distinct hmem hat.opens
    (show n.kind.isOutlined = false by rw [hkind]; rfl)
  rw [Index.filter_entries_of_not_isOutlined hnot,
    Index.filter_forestEntries_eq_toList s.distinct hrow hne (by rw [hrange]; rfl)
      (by rw [hkind]; rfl)
      hat.opens (by rw [hkind]; rfl), hat.script_eq]
  cases script with
  | false => simp
  | true =>
    simp only [Bool.and_true, if_true]
    rcases variableSymbol?_cases hrow type range with ⟨hnone, hvar⟩ |
      ⟨name, nameRange, v, hsome, hvar, hv, hplace⟩
    · rw [hnone, hvar]
      simp
    · rw [hsome, hvar, Option.filter_some_pos (by rw [hplace]; rfl)]
      refine lists_leaf rfl (shows_of_declaredVariable? hmem hrange hkind hvar hv hplace) ?_
      -- The statement itself is no class.
      have hparent : s.index.IsParent (n.entry above) v :=
        Index.isParent_of_declaredVariable? s.distinct hmem hvar
      have hsame : s.index.namedClasses (s.index.ancestors v.id) =
          s.index.namedClasses (s.index.ancestors n.id) := by
        rw [hparent.ancestors_eq s.distinct]
        simp [Index.namedClasses, Node.entry, hkind, Kind.isNamedClass]
      rw [hsame]
      exact hat.shown

/-- Nothing is listed for a node of any other kind. -/
theorem lists_nil (hplaced : n.range.isSome = true) (hkind : n.kind.isOutlined = false)
    (hclass : n.kind.isClass = false) (hstatement : n.kind.isDeclarationStatement = false) :
    List.Forall₂ s.Lists (OutlineSymbol.forestRows symbols [])
      ((n.entries above).filter s.index.IsOutlined) := by
  have hnot :=
    Index.not_isOutlined_of_opens s.distinct (Index.entry_mem_of_row hrow) hat.opens hkind
  rw [Index.filter_entries_of_not_isOutlined hnot,
    Index.filter_forestEntries_eq_nil s.distinct hrow hne hplaced hclass hstatement,
    OutlineSymbol.forestRows_nil]
  exact .nil

/-- The symbols of a node and of the nodes below it list the nodes there, if this holds for what is
below it. -/
theorem lists_outline
    (ih : ∀ {script symbols},
      s.OutlinesBelow (n.entry above :: s.index.ancestors n.id) script symbols →
      List.Forall₂ s.Lists
        (OutlineSymbol.forestRows symbols (Node.forestOutline s.declarations script n.children))
        ((Node.forestEntries (n.id :: above) n.children).filter s.index.IsOutlined)) :
    List.Forall₂ s.Lists (OutlineSymbol.forestRows symbols (n.outline s.declarations script))
      ((n.entries above).filter s.index.IsOutlined) := by
  have hmem : n.entry above ∈ s.index.entries := Index.entry_mem_of_row hrow
  have hnot := Index.not_isOutlined_of_opens s.distinct hmem hat.opens
  obtain ⟨id, kind, range, children⟩ := n
  cases range with
  | none =>
    have hunplaced : ¬ s.index.IsOutlined (Node.entry above ⟨id, kind, none, children⟩) := by
      rintro ⟨hplaced, -⟩
      cases hplaced
    rw [Node.outline, Index.filter_entries_of_not_isOutlined hunplaced]
    exact ih (hat.unplaced rfl)
  | some range =>
    -- What the steps ask of the node can be read off its kind and range, hence the many `rfl`.
    cases kind with
    | classDecl name nameRange synthetic =>
      cases synthetic with
      | true =>
        rw [Node.outline, if_pos rfl, Index.filter_entries_of_not_isOutlined (hnot rfl)]
        exact ih (hat.synthetic hne rfl rfl rfl)
      | false =>
        have houtlined := Index.isOutlined_of_opens hne hat.opens rfl rfl
        rw [Node.outline, if_neg Bool.false_ne_true, Index.filter_entries_of_isOutlined houtlined,
          OutlineSymbol.forestRows_singleton, OutlineSymbol.rows_eq]
        have hsymbol : s.Shows ⟨name, .classDecl, none, range,
            Kind.selectionRange (.classDecl name nameRange false) range,
            Node.forestOutline s.declarations false children⟩ _ :=
          shows_of_isOutlined hmem rfl rfl rfl rfl rfl rfl rfl
        exact .cons ⟨hsymbol, hat.shown⟩ (ih (hat.named hne rfl rfl hsymbol))
    | methodDecl name nameRange returnType isConstructor =>
      rw [Node.outline]
      cases isConstructor <;>
        exact lists_member hrow hne hat rfl rfl rfl
          (shows_of_isOutlined hmem rfl rfl rfl rfl rfl rfl rfl) rfl
    | fieldDecl name nameRange typeName | propertyDecl name nameRange typeName =>
      rw [Node.outline]
      exact lists_member hrow hne hat rfl rfl rfl
        (shows_of_isOutlined hmem rfl rfl rfl rfl rfl rfl rfl) rfl
    | declaration type =>
      rw [Node.outline]
      exact lists_declaration hrow hne hat rfl rfl
    | _ =>
      simp only [Node.outline]
      exact lists_nil hrow hne hat rfl rfl rfl rfl

end Node

/-- The symbols of a forest list the nodes of the forest that have one. -/
theorem lists_forestOutline (f : Forest) {above : List NodeId} {script : Bool}
    {symbols : List OutlineSymbol}
    (hrows : Node.forestRows above f ⊆ Node.forestRows [] [s.index.tree]) (hbelow : above ≠ [])
    (hat : s.OutlinesBelow (above.filterMap s.index.get?) script symbols) :
    List.Forall₂ s.Lists
      (OutlineSymbol.forestRows symbols (Node.forestOutline s.declarations script f))
      ((Node.forestEntries above f).filter s.index.IsOutlined) := by
  -- The descent changes what is above, whether this is the script, and which symbols are around.
  induction f using Forest.induction generalizing above script symbols with
  | nil => simp [Node.forestOutline, Node.forestEntries]
  | cons n rest ihChildren ihRest =>
    rw [Node.forestRows_cons] at hrows
    have hrow : (above, n) ∈ Node.forestRows [] [s.index.tree] := hrows List.mem_cons_self
    have hne : n.entry above ≠ s.index.root := fun h => hbelow (congrArg Entry.ancestors h)
    rw [Node.forestOutline, OutlineSymbol.forestRows_append, Node.forestEntries, List.filter_append]
    refine List.rel_append ?_ ?_
    · rw [← Index.ancestors_of_row s.distinct hrow] at hat
      refine lists_outline hrow hne hat fun hat' => ihChildren ?_ (List.cons_ne_nil _ _) ?_
      · intro row h
        exact hrows (List.mem_cons_of_mem _ (List.mem_append_left _ h))
      · rw [Index.filterMap_get?_of_row s.distinct hrow]
        exact hat'
    · refine ihRest ?_ hbelow hat
      intro row h
      exact hrows (List.mem_cons_of_mem _ (List.mem_append_right _ h))

/-- The root has no symbol. -/
theorem not_isOutlined_root (s : Snapshot) : ¬ s.index.IsOutlined s.index.root := by
  rintro ⟨-, declarer, hdeclarer, hne, -⟩
  rcases Index.declarer?_eq_some s.distinct s.index.root_mem hdeclarer with ⟨rfl, -⟩ | ⟨hparent, -⟩
  · exact hne rfl
  · cases hparent.2.2

/-- The outline lists the nodes that have a symbol, one by one. -/
theorem lists_outlined (s : Snapshot) :
    List.Forall₂ s.Lists (OutlineSymbol.forestRows [] s.outline) s.index.outlined := by
  have hrow : ([], s.index.tree) ∈ Node.forestRows [] [s.index.tree] :=
    Node.mem_forestRows_of_mem List.mem_cons_self
  rw [Index.outlined, s.index.entries_eq,
    Index.filter_entries_of_not_isOutlined s.not_isOutlined_root]
  have hsubset := (Node.forestRows_sublist_of_mem hrow).subset
  refine lists_forestOutline _ hsubset (List.cons_ne_nil _ _) ?_
  have habove : s.index.ancestors s.index.tree.id = [] := Index.ancestors_root s.distinct
  rw [Index.filterMap_get?_of_row s.distinct hrow, habove]
  exact OutlinesBelow.root s

/-! ### Nesting -/

end Snapshot

namespace Index

/-- Identifiers lie inside their nodes. -/
def IdentifiersInside (idx : Index) : Prop :=
  ∀ e ∈ idx.entries, ∀ r ∈ e.range, ∀ i ∈ e.nameRange?, r.containsRange i = true

instance (idx : Index) : Decidable idx.IdentifiersInside :=
  inferInstanceAs (Decidable (∀ e ∈ idx.entries, ∀ r ∈ e.range, ∀ i ∈ e.nameRange?,
    r.containsRange i = true))

variable {idx : Index}

/-- A class above a node is above what declares it. -/
theorem mem_ancestors_declarer (hd : idx.Distinct) {p e declarer : Entry} (he : e ∈ idx.entries)
    (hdeclarer : idx.declarer? e = some declarer) (hp : p ∈ idx.ancestors e.id)
    (hclass : p.kind.isClass = true) : p ∈ idx.ancestors declarer.id := by
  rcases declarer?_eq_some hd he hdeclarer with ⟨rfl, -⟩ | ⟨hparent, hstatement, -⟩
  · exact hp
  · rw [hparent.ancestors_eq hd] at hp
    rcases List.mem_cons.mp hp with rfl | hp
    · rw [Kind.isClass_of_isDeclarationStatement hstatement] at hclass
      cases hclass
    · exact hp

/-- Where nodes nest, what stands above a node is around it. -/
theorem Nests.containsRange_of_mem_ancestors (h : idx.Nests) (hd : idx.Distinct) {m n : Entry}
    {r s : Range} (hn : n ∈ idx.entries) (hm : m ∈ idx.ancestors n.id) (hne : m ≠ idx.root)
    (hs : m.range = some s) (hr : n.range = some r) : s.containsRange r = true :=
  h.containsRange_of_above hd (mem_of_mem_ancestors hm) hne hn hs hr
    (Or.inr (List.any_eq_true.mpr ⟨m, hm, beq_self_eq_true _⟩))

/-- Where nodes nest, what declares a node is around it. -/
theorem Nests.containsRange_of_declarer (h : idx.Nests) (hd : idx.Distinct) {e declarer : Entry}
    {r s : Range} (he : e ∈ idx.entries) (hdeclarer : idx.declarer? e = some declarer)
    (hne : declarer ≠ idx.root) (hs : declarer.range = some s) (hr : e.range = some r) :
    s.containsRange r = true := by
  rcases declarer?_eq_some hd he hdeclarer with ⟨rfl, -⟩ | ⟨hparent, -, -⟩
  · cases hs.symm.trans hr
    exact Range.containsRange_self _
  · refine h.containsRange_of_mem_ancestors hd he ?_ hne hs hr
    rw [hparent.ancestors_eq hd]
    exact List.mem_cons_self

end Index

namespace Snapshot

variable {s : Snapshot}

/-- The ranges of a symbol: of what declares its node, and of the identifier there. -/
theorem Shows.ranges {symbol : OutlineSymbol} {e declarer : Entry} {range : Range}
    (h : s.Shows symbol e) (he : e ∈ s.index.entries)
    (hdeclarer : s.index.declarer? e = some declarer) (hrange : declarer.range = some range) :
    symbol.range = range ∧ e.nameRange? = some symbol.selectionRange := by
  obtain ⟨d, hdef, -, -, hsymbol, hselection, -⟩ := h
  rw [definitionFor?_of_mem he] at hdef
  refine ⟨?_, by rw [nameRange?_of_definitionOf? hdef, hselection]⟩
  simp only [definitionOf?, hdeclarer, Option.bind_eq_bind, Option.bind_some,
    Option.bind_eq_some_iff] at hdef
  obtain ⟨_, -, _, -, _, -, hd⟩ := hdef
  cases hd
  rw [hsymbol, hrange]
  rfl

/-- The symbol of a node lies around its identifier, and inside the symbol around it. -/
theorem Lists.nested {row : List OutlineSymbol × OutlineSymbol} {e : Entry} (h : s.Lists row e)
    (he : e ∈ s.index.outlined) (hnests : s.index.Nests) (hinside : s.index.IdentifiersInside) :
    row.2.range.containsRange row.2.selectionRange = true ∧
      ∀ parent ∈ row.1.head?, parent.range.containsRange row.2.range = true := by
  obtain ⟨hsymbol, hshown⟩ := h
  obtain ⟨hmem, houtlined⟩ := List.mem_filter.mp he
  obtain ⟨hplaced, declarer, hdeclarer, hne, hdplaced, -, -⟩ := of_decide_eq_true houtlined
  obtain ⟨range, hrange⟩ := Option.isSome_iff_exists.mp hplaced
  obtain ⟨outer, houter⟩ := Option.isSome_iff_exists.mp hdplaced
  obtain ⟨hrow, hselection⟩ := hsymbol.ranges hmem hdeclarer houter
  rw [hrow]
  constructor
  · exact Range.containsRange_trans
      (hnests.containsRange_of_declarer s.distinct hmem hdeclarer hne houter hrange)
      (hinside e hmem range hrange _ hselection)
  · intro parent hparent
    obtain ⟨rest, hrest⟩ := List.head?_eq_some_iff.mp hparent
    rw [hrest] at hshown
    obtain ⟨p, _, hp, -, hclasses⟩ := List.forall₂_cons_left_iff.mp hshown
    have hpmem : p ∈ s.index.namedClasses (s.index.ancestors e.id) := by
      rw [hclasses]
      exact List.mem_cons_self
    obtain ⟨habove, hcond⟩ := List.mem_filter.mp hpmem
    obtain ⟨hpne, hpplaced, hnamed⟩ := of_decide_eq_true hcond
    obtain ⟨around, haround⟩ := Option.isSome_iff_exists.mp hpplaced
    have hself := s.index.declarer?_of_isDeclaration
      (Kind.isDeclaration_of_isOutlined (Kind.isOutlined_of_isNamedClass hnamed))
    rw [(hp.ranges (Index.mem_of_mem_ancestors habove) hself haround).1]
    have hdmem : declarer ∈ s.index.entries := by
      rcases Index.declarer?_eq_some s.distinct hmem hdeclarer with ⟨rfl, -⟩ | ⟨hlink, -⟩
      · exact hmem
      · exact hlink.1
    exact hnests.containsRange_of_mem_ancestors s.distinct hdmem
      (Index.mem_ancestors_declarer s.distinct hmem hdeclarer habove
        (Kind.isClass_of_isNamedClass hnamed)) hpne haround houter

/-- The symbols of an outline stand one by one for the nodes that have one, and nest as these do. -/
theorem outline_agrees (s : Snapshot) :
    List.Forall₂ s.Lists (OutlineSymbol.forestRows [] s.outline) s.index.outlined ∧
    s.index.outlined.Sublist s.index.entries ∧ (s.index.outlined.map Entry.id).Nodup ∧
    -- Only classes and nodes without a place are around a class or member with a symbol.
    (∀ e ∈ s.index.entries, e ≠ s.index.root → e.range.isSome = true → e.kind.isOutlined = true →
      (e ∈ s.index.outlined ↔
        ∀ a ∈ s.index.ancestors e.id, a ≠ s.index.root → a.range = none ∨ a.kind.isClass = true)) ∧
    (s.index.Nests → s.index.IdentifiersInside →
      ∀ row ∈ OutlineSymbol.forestRows [] s.outline,
        row.2.range.containsRange row.2.selectionRange = true ∧
        ∀ parent ∈ row.1.head?, parent.range.containsRange row.2.range = true) := by
  have hlists := s.lists_outlined
  have hsub : s.index.outlined.Sublist s.index.entries := List.filter_sublist
  refine ⟨hlists, hsub, s.distinct.sublist (hsub.map Entry.id), ?_, ?_⟩
  · intro e he hne hplaced hkind
    constructor
    · intro houtlined
      obtain ⟨-, declarer, hdeclarer, -, -, hopens, -⟩ :=
        of_decide_eq_true (List.mem_filter.mp houtlined).2
      have hself := s.index.declarer?_of_isDeclaration (Kind.isDeclaration_of_isOutlined hkind)
      cases hself.symm.trans hdeclarer
      exact hopens
    · intro hopens
      exact List.mem_filter.mpr
        ⟨he, decide_eq_true (Index.isOutlined_of_opens hne hopens hplaced hkind)⟩
  · intro hnests hinside row hrow
    obtain ⟨i, hi, rfl⟩ := List.getElem_of_mem hrow
    have hi' : i < s.index.outlined.length := hlists.length_eq ▸ hi
    exact (hlists.get hi hi').nested (List.get_mem _ _) hnests hinside

/-- A script with a variable, a class with an inner class, and a method with a class inside. Its
synthetic class and the constructor stand below nodes without a place. -/
private def cupboard : Snapshot :=
  .ofParsed (.clean ⟨⟨"file:///cupboard.groovy"⟩, 1⟩
    ⟨⟨0⟩, .moduleRoot, none,
      [⟨⟨1⟩, .expressionStatement, none,
        [⟨⟨2⟩, .classDecl "Cupboard" none true, some (.ofCorners 0 0 9 0),
          [⟨⟨3⟩, .declaration (some "int"), some (.ofCorners 0 0 0 12),
            [⟨⟨4⟩, .variableRef "doors", some (.ofCorners 0 4 0 9), []⟩]⟩,
           ⟨⟨5⟩, .classDecl "Shelf" (some (.ofCorners 1 6 1 11)) false, some (.ofCorners 1 0 6 1),
            [⟨⟨6⟩, .fieldDecl "width" (some (.ofCorners 2 6 2 11)) (some "int"),
              some (.ofCorners 2 2 2 11), []⟩,
             ⟨⟨7⟩, .block, none,
              [⟨⟨8⟩, .methodDecl "Shelf" (some (.ofCorners 3 2 3 7)) none true,
                some (.ofCorners 3 2 3 20),
                [⟨⟨9⟩, .parameter "width" none (some "int") false,
                  some (.ofCorners 3 8 3 17), []⟩]⟩]⟩,
             ⟨⟨10⟩, .classDecl "Box" (some (.ofCorners 4 8 4 11)) false, some (.ofCorners 4 2 4 30),
              [⟨⟨11⟩, .propertyDecl "lid" none none, some (.ofCorners 4 14 4 28), []⟩]⟩,
             ⟨⟨12⟩, .declaration none, some (.ofCorners 5 2 5 10),
              [⟨⟨13⟩, .variableRef "spare", some (.ofCorners 5 4 5 9), []⟩]⟩]⟩,
           ⟨⟨14⟩, .methodDecl "sort" none (some "void") false, some (.ofCorners 7 0 8 1),
            [⟨⟨15⟩, .block, some (.ofCorners 7 12 8 1),
              [⟨⟨16⟩, .classDecl "Order" none false, some (.ofCorners 7 14 7 30), []⟩]⟩]⟩]⟩]⟩]⟩) 0

/-- The script's variable, the constructor and the inner class have symbols; the variable of the
class and the class inside the method have none. -/
theorem outline_agrees_cupboard :
    cupboard.index.Nests ∧ cupboard.index.IdentifiersInside ∧
    cupboard.index.outlined.map Entry.id = [⟨4⟩, ⟨5⟩, ⟨6⟩, ⟨8⟩, ⟨10⟩, ⟨11⟩, ⟨14⟩] ∧
    (OutlineSymbol.forestRows [] cupboard.outline).map
        (fun row => (row.1.map OutlineSymbol.name, row.2.name, row.2.detail)) =
      [([], "doors", some "int"), ([], "Shelf", none), (["Shelf"], "width", some "int"),
       (["Shelf"], "Shelf", some "def Shelf(int width)"), (["Shelf"], "Box", none),
       (["Box", "Shelf"], "lid", none), ([], "sort", some "void sort()")] ∧
    ∀ row ∈ OutlineSymbol.forestRows [] cupboard.outline,
      row.2.range.containsRange row.2.selectionRange = true ∧
      ∀ parent ∈ row.1.head?, parent.range.containsRange row.2.range = true := by
  have hnests : cupboard.index.Nests := by decide
  have hinside : cupboard.index.IdentifiersInside := by decide
  obtain ⟨-, -, -, -, hnested⟩ := outline_agrees cupboard
  exact ⟨hnests, hinside, by decide, by rfl, hnested hnests hinside⟩

end Snapshot

end GroovyIndex
