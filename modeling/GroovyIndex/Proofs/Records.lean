import GroovyIndex.Proofs.Index

/-!
# Records and definitions

The declarations of a document and the definitions of its nodes are read off the entries in two
ways. They agree: the node of every record has a definition, and it says what the record says. So a
look-up in the declarations never ends at a node without a definition.
-/

namespace GroovyIndex

/-! ### Definitions by entry -/

namespace Index

/-- A node of a declaring kind makes its own declaration. -/
theorem declarer?_of_isDeclaration (idx : Index) {e : Entry} (h : e.kind.isDeclaration = true) :
    idx.declarer? e = some e := by
  rw [declarer?, h]
  rfl

/-- A node of a declaring kind declares. -/
theorem declares_of_isDeclaration (idx : Index) {e : Entry} (h : e.kind.isDeclaration = true) :
    idx.declares e = true := by
  rw [declares, declarer?_of_isDeclaration idx h]
  rfl

/-- The variable of a declaring statement is declared by that statement. -/
theorem declarer?_of_declaredVariable? {idx : Index} (hd : idx.Distinct) {st target : Entry}
    (hst : st ∈ idx.entries) (hkind : st.kind.isDeclarationStatement = true)
    (h : idx.declaredVariable? st.id = some target) : idx.declarer? target = some st := by
  obtain ⟨hhead, hvar⟩ := Option.filter_eq_some_iff.mp h
  have hmem := List.mem_of_head? hhead
  have hparent := ((mem_children_iff hd hst).mp hmem).parent?_eq hd
  have hnot : target.kind.isDeclaration = false := by
    cases hk : target.kind <;> simp_all [Kind.isVariableRef, Kind.isDeclaration]
  simp [declarer?, hnot, declaringStatement?, hparent, hkind, h]

/-- What declares but is not of a declaring kind is the variable of a statement. -/
theorem isVariableRef_of_declares {idx : Index} (hd : idx.Distinct) {e : Entry}
    (he : e ∈ idx.entries) (h : idx.declares e = true) (hnot : e.kind.isDeclaration = false) :
    e.kind.isVariableRef = true := by
  simp only [declares, declarer?, hnot, Bool.false_eq_true, ↓reduceIte] at h
  obtain ⟨st, hst⟩ := Option.isSome_iff_exists.mp h
  obtain ⟨-, hcond⟩ := Option.filter_eq_some_iff.mp hst
  obtain ⟨-, hany⟩ := Bool.and_eq_true_iff.mp hcond
  obtain ⟨target, htarget, hid⟩ := (Option.any_eq_true _ _).mp hany
  obtain ⟨hhead, hvar⟩ := Option.filter_eq_some_iff.mp htarget
  have hmem : target ∈ idx.entries := by
    have hin := List.mem_of_head? hhead
    unfold children at hin
    split at hin
    · obtain ⟨_, _, hget⟩ := List.mem_filterMap.mp hin
      exact (mem_of_get? hget).1
    · cases hin
  rwa [← eq_of_id_eq hd hmem he (by simpa using hid)]

end Index

namespace Snapshot

variable {s : Snapshot}

/-- What a definition says of the entry that it belongs to. -/
theorem definitionOf?_eq_some {e : Entry} {d : Definition} (h : s.definitionOf? e = some d) :
    s.index.declares e = true ∧ d.uri = s.uri ∧ d.node = e.id ∧
      e.kind.symbolKind? = some d.kind ∧ e.kind.declaredName? = some d.name ∧
      e.range.isSome = true ∧ d.owner = if d.kind.isMember then s.index.owner? e.id else none := by
  simp only [definitionOf?, Option.bind_eq_bind, Option.bind_eq_some_iff] at h
  obtain ⟨range, hrange, declarer, hdeclarer, kind, hkind, name, hname, hd⟩ := h
  cases hd
  refine ⟨?_, rfl, rfl, hkind, hname, by rw [hrange]; rfl, rfl⟩
  rw [Index.declares, hdeclarer]
  rfl

/-- A definition selects the identifier of the entry that it belongs to. -/
theorem nameRange?_of_definitionOf? {e : Entry} {d : Definition} (h : s.definitionOf? e = some d) :
    e.nameRange? = some d.selectionRange := by
  simp only [definitionOf?, Option.bind_eq_bind, Option.bind_eq_some_iff] at h
  obtain ⟨range, hrange, declarer, -, kind, -, name, -, hd⟩ := h
  cases hd
  obtain ⟨identifier, hidentifier⟩ := Entry.exists_nameRange? hrange
  rw [hidentifier]
  rfl

/-- Where something other than an import is declared, the node has its name. -/
theorem name?_of_definitionOf? {e : Entry} {d : Definition} (h : s.definitionOf? e = some d)
    (hkind : d.kind ≠ .importDecl) : e.name? = some d.name := by
  obtain ⟨-, -, -, hsymbol, hname, -⟩ := definitionOf?_eq_some h
  rw [Entry.name?, ← hname]
  cases hk : e.kind <;> simp [hk, Kind.symbolKind?, Kind.declaredName?] at hsymbol ⊢
  exact absurd hsymbol.symm hkind

/-- The definition at the node of an entry is that of the entry. -/
theorem definitionFor?_of_mem {e : Entry} (he : e ∈ s.index.entries) :
    s.definitionFor? e.id = s.definitionOf? e := by
  rw [definitionFor?, Index.get?_of_mem s.distinct he, Option.bind_some]

/-- A definition belongs to the entry of its node. -/
theorem exists_entry_of_definitionFor? {id : NodeId} {d : Definition}
    (h : s.definitionFor? id = some d) :
    ∃ e, s.index.get? id = some e ∧ s.definitionOf? e = some d ∧ e.id = id := by
  obtain ⟨e, hget, hdef⟩ := Option.bind_eq_some_iff.mp h
  exact ⟨e, hget, hdef, (Index.mem_of_get? hget).2⟩

/-- The definition of a node points at that node, in its document. -/
theorem node_of_definitionFor? {id : NodeId} {d : Definition} (h : s.definitionFor? id = some d) :
    d.node = id ∧ d.uri = s.uri := by
  obtain ⟨e, -, hdef, hid⟩ := exists_entry_of_definitionFor? h
  obtain ⟨-, huri, hnode, -⟩ := definitionOf?_eq_some hdef
  exact ⟨hnode.trans hid, huri⟩

/-- The definition whose identifier stands at an entry, from what declares it. -/
theorem definitionFor?_of_declarer {e declarer : Entry} {range : Range} {kind : SymbolKind}
    {name : String} (he : e ∈ s.index.entries) (hrange : e.range = some range)
    (hdeclarer : s.index.declarer? e = some declarer) (hkind : e.kind.symbolKind? = some kind)
    (hname : e.kind.declaredName? = some name) :
    s.definitionFor? e.id = some {
      uri := s.uri
      node := e.id
      name := name
      kind := kind
      range := declarer.range.getD range
      selectionRange := e.kind.nameRange?.getD range
      typeName := declarer.kind.declaredType?
      owner := if kind.isMember then s.index.owner? e.id else none } := by
  have hsel : e.nameRange?.getD range = e.kind.nameRange?.getD range := by
    rw [Entry.nameRange?, hrange]
    cases e.kind.nameRange? <;> rfl
  rw [definitionFor?_of_mem he]
  simp [definitionOf?, hrange, hdeclarer, hkind, hname, hsel]

end Snapshot

/-! ### Definitions by record -/

/-- The definition that a class gives. -/
def ClassDecl.definition (c : ClassDecl) (uri : Uri) : Definition :=
  ⟨uri, c.node, c.name, .classDecl, c.range, c.nameRange, none, none⟩

/-- The definition that a method or constructor gives. -/
def MethodDecl.definition (m : MethodDecl) (uri : Uri) : Definition :=
  ⟨uri, m.node, m.name, if m.isConstructor then .constructor else .method, m.range, m.nameRange,
    m.returnType, m.owner⟩

/-- The definition that a field or property gives. -/
def FieldDecl.definition (f : FieldDecl) (uri : Uri) : Definition :=
  ⟨uri, f.node, f.name, if f.isProperty then .property else .field, f.range, f.nameRange,
    f.typeName, f.owner⟩

/-- The kind of symbol that a variable is. -/
def VariableKind.symbolKind : VariableKind → SymbolKind
  | .localVar => .localVar
  | .parameter => .parameter

/-- The definition that a variable gives; the range is that of the whole declaration. -/
def VariableDecl.definition (v : VariableDecl) (uri : Uri) (range : Range) : Definition :=
  ⟨uri, v.node, v.name, v.kind.symbolKind, range, v.nameRange, v.typeName, none⟩

/-- The definition that an import gives. -/
def ImportDecl.definition (i : ImportDecl) (uri : Uri) : Definition :=
  ⟨uri, i.node, i.simpleName, .importDecl, i.range, i.range, none, none⟩

namespace Snapshot

variable {s : Snapshot}

/-- The definition that a node of a declaring kind gives where it stands. -/
def ownDefinition? (s : Snapshot) (e : Entry) (range : Range) : Option Definition := do
  let kind ← e.kind.symbolKind?
  let name ← e.kind.declaredName?
  return {
    uri := s.uri
    node := e.id
    name := name
    kind := kind
    range := range
    selectionRange := e.kind.nameRange?.getD range
    typeName := e.kind.declaredType?
    owner := if kind.isMember then s.index.owner? e.id else none }

theorem definitionFor?_of_isDeclaration {e : Entry} {range : Range} {d : Definition}
    (he : e ∈ s.index.entries) (hrange : e.range = some range)
    (hkind : e.kind.isDeclaration = true) (h : s.ownDefinition? e range = some d) :
    s.definitionFor? e.id = some d := by
  simp only [ownDefinition?, Option.bind_eq_bind, Option.bind_eq_some_iff] at h
  obtain ⟨kind, hsymbol, name, hname, hd⟩ := h
  have hdecl := s.index.declarer?_of_isDeclaration hkind
  rw [definitionFor?_of_declarer he hrange hdecl hsymbol hname, hrange]
  exact hd

/-- A record of a walk is declared at its node, if it says what a node of a declaring kind says. -/
theorem definitionFor?_of_mem_records {α : Type} {describe : Entry → Range → Option α} {r : α}
    {id : NodeId} {d : Definition}
    (h : r ∈ s.index.entries.filterMap fun e => e.range.bind (describe e))
    (hdescribe : ∀ e range, describe e range = some r →
      e.kind.isDeclaration = true ∧ s.ownDefinition? e range = some d ∧ e.id = id) :
    s.definitionFor? id = some d := by
  obtain ⟨e, he, hr⟩ := List.mem_filterMap.mp h
  obtain ⟨range, hrange, hr⟩ := Option.bind_eq_some_iff.mp hr
  obtain ⟨hkind, hown, hid⟩ := hdescribe e range hr
  rw [← hid]
  exact definitionFor?_of_isDeclaration he hrange hkind hown

/-- A listed class is declared at its node. -/
theorem definitionFor?_of_mem_classes {c : ClassDecl} (h : c ∈ s.declarations.classes) :
    s.definitionFor? c.node = some (c.definition s.uri) := by
  rw [s.declarations_eq] at h
  apply definitionFor?_of_mem_records h
  rintro ⟨id, kind, place, children, ancestors⟩ range hc
  cases kind <;> cases hc
  exact ⟨rfl, rfl, rfl⟩

/-- A listed method is declared at its node. -/
theorem definitionFor?_of_mem_methods {m : MethodDecl} (h : m ∈ s.declarations.methods) :
    s.definitionFor? m.node = some (m.definition s.uri) := by
  rw [s.declarations_eq] at h
  apply definitionFor?_of_mem_records h
  rintro ⟨id, kind, place, children, ancestors⟩ range hm
  cases kind with
  | methodDecl name nameRange returnType isConstructor =>
    cases hm
    cases isConstructor <;> exact ⟨rfl, rfl, rfl⟩
  | _ => cases hm

/-- A listed field or property is declared at its node. -/
theorem definitionFor?_of_mem_fields {f : FieldDecl} (h : f ∈ s.declarations.fields) :
    s.definitionFor? f.node = some (f.definition s.uri) := by
  rw [s.declarations_eq] at h
  apply definitionFor?_of_mem_records h
  rintro ⟨id, kind, place, children, ancestors⟩ range hf
  cases kind <;> cases hf <;> exact ⟨rfl, rfl, rfl⟩

/-- A listed import is declared at its node. -/
theorem definitionFor?_of_mem_imports {i : ImportDecl} (h : i ∈ s.declarations.imports) :
    s.definitionFor? i.node = some (i.definition s.uri) := by
  rw [s.declarations_eq] at h
  apply definitionFor?_of_mem_records h
  rintro ⟨id, kind, place, children, ancestors⟩ range hi
  cases kind <;> cases hi
  exact ⟨rfl, rfl, rfl⟩

/-- A listed variable is declared at its node: a parameter by itself, a local variable by the
statement around it. -/
theorem definitionFor?_of_mem_vars {v : VariableDecl} (h : v ∈ s.declarations.vars) :
    ∃ range, s.definitionFor? v.node = some (v.definition s.uri range) := by
  rw [s.declarations_eq] at h
  obtain ⟨e, he, hv⟩ := List.mem_filterMap.mp h
  obtain ⟨range, hrange, hv⟩ := Option.bind_eq_some_iff.mp hv
  cases hk : e.kind with
  | parameter name nameRange typeName hasDefault =>
    simp only [hk] at hv
    obtain ⟨scope, -, hv⟩ := Option.bind_eq_some_iff.mp hv
    cases hv
    refine ⟨range, definitionFor?_of_isDeclaration he hrange (by rw [hk]; rfl) ?_⟩
    rw [ownDefinition?, hk]
    rfl
  | declaration typeName =>
    simp only [hk] at hv
    obtain ⟨target, htarget, hv⟩ := Option.bind_eq_some_iff.mp hv
    obtain ⟨name, hname, hv⟩ := Option.bind_eq_some_iff.mp hv
    obtain ⟨nameRange, hnameRange, hv⟩ := Option.bind_eq_some_iff.mp hv
    obtain ⟨scope, -, hv⟩ := Option.bind_eq_some_iff.mp hv
    cases hv
    have hstatement : e.kind.isDeclarationStatement = true := by rw [hk]; rfl
    have hdecl := Index.declarer?_of_declaredVariable? s.distinct he hstatement htarget
    obtain ⟨hhead, hvar⟩ := Option.filter_eq_some_iff.mp htarget
    have hmem := ((Index.mem_children_iff s.distinct he).mp (List.mem_of_head? hhead)).2.1
    refine ⟨range, ?_⟩
    cases ht : target.kind with
    | variableRef name' =>
      have hsymbol : target.kind.symbolKind? = some .localVar := by rw [ht]; rfl
      have hdeclared : target.kind.declaredName? = some name := by
        rw [Entry.name?, ht] at hname
        rw [ht]
        exact hname
      rw [definitionFor?_of_declarer hmem hnameRange hdecl hsymbol hdeclared, hk, hrange, ht]
      rfl
    | _ => simp [ht, Kind.isVariableRef] at hvar
  | _ => simp [hk] at hv

/-- A method or constructor that is defined is listed. -/
theorem exists_mem_methods_of_definitionFor? {id : NodeId} {d : Definition}
    (h : s.definitionFor? id = some d) (hkind : d.kind = .method ∨ d.kind = .constructor) :
    ∃ m ∈ s.declarations.methods, m.definition s.uri = d := by
  obtain ⟨e, hget, hdef, rfl⟩ := exists_entry_of_definitionFor? h
  obtain ⟨-, -, -, hsymbol, -, hsome, -⟩ := definitionOf?_eq_some hdef
  obtain ⟨range, hrange⟩ := Option.isSome_iff_exists.mp hsome
  have hlisted : ∃ m, s.index.methodDecl? e = some m ∧ m.node = e.id := by
    cases hk : e.kind <;> simp [hk, Kind.symbolKind?] at hsymbol
    case methodDecl => exact ⟨_, by simp [Index.methodDecl?, hrange, hk]; rfl, rfl⟩
    all_goals simp [← hsymbol] at hkind
  obtain ⟨m, hm, hnode⟩ := hlisted
  have hmem : m ∈ s.declarations.methods := by
    rw [s.declarations_eq]
    exact List.mem_filterMap.mpr ⟨e, (Index.mem_of_get? hget).1, hm⟩
  refine ⟨m, hmem, ?_⟩
  rw [← hnode, definitionFor?_of_mem_methods hmem] at h
  exact Option.some.inj h

/-- The owner of a member is a class. -/
theorem kind_of_owner {id owner : NodeId} {d c : Definition} (h : s.definitionFor? id = some d)
    (howner : d.owner = some owner) (hc : s.definitionFor? owner = some c) :
    c.kind = .classDecl := by
  obtain ⟨e, -, hdef, -⟩ := exists_entry_of_definitionFor? h
  obtain ⟨-, -, -, -, -, -, heq⟩ := definitionOf?_eq_some hdef
  rw [howner] at heq
  split at heq
  · obtain ⟨around, haround, rfl⟩ := Option.map_eq_some_iff.mp heq.symm
    have hclass := List.find?_some haround
    have hmem := Index.mem_of_mem_ancestors (List.mem_of_find?_eq_some haround)
    rw [definitionFor?_of_mem hmem] at hc
    obtain ⟨-, -, -, hsymbol, -⟩ := definitionOf?_eq_some hc
    cases hk : around.kind <;> simp [hk, Kind.isClass, Kind.symbolKind?] at hclass hsymbol
    exact hsymbol.symm
  · cases heq

end Snapshot

end GroovyIndex
