import GroovyIndex.Proofs.Resolution

/-!
# Relabelled documents

A relabelling gives some nodes of a document new names and leaves everything else as it is. What an
index and the declarations say then follows from what they said before: the structure is the same,
and only names differ.
-/

namespace GroovyIndex

/-! ### Kinds -/

namespace Kind

/-- The kind with another name. An import takes it as its alias, and a kind without a name stays. -/
def withName (name : String) : Kind → Kind
  | classDecl _ range synthetic => classDecl name range synthetic
  | methodDecl _ range returnType isConstructor => methodDecl name range returnType isConstructor
  | fieldDecl _ range typeName => fieldDecl name range typeName
  | propertyDecl _ range typeName => propertyDecl name range typeName
  | parameter _ range typeName hasDefault => parameter name range typeName hasDefault
  | importDecl path _ isStatic isStar => importDecl path (some name) isStatic isStar
  | variableRef _ => variableRef name
  | propertyRef _ range => propertyRef name range
  | call _ range implicitThis => call name range implicitThis
  | constructorCall _ range => constructorCall name range
  | classRef _ => classRef name
  | kind => kind

/-- The kind with the new name, if there is one. -/
def relabel (kind : Kind) : Option String → Kind
  | some name => kind.withName name
  | none => kind

variable (kind : Kind) (label : Option String)

/-- A new name is the name that is read off afterwards. -/
theorem name?_relabel : (kind.relabel label).name? = kind.name?.map label.getD := by
  cases label <;> cases kind <;> rfl

@[simp]
theorem isSome_declaredName?_relabel :
    (kind.relabel label).declaredName?.isSome = kind.declaredName?.isSome := by
  cases label <;> cases kind <;> rfl

@[simp]
theorem symbolKind?_relabel : (kind.relabel label).symbolKind? = kind.symbolKind? := by
  cases label <;> cases kind <;> rfl

@[simp]
theorem isDeclaration_relabel : (kind.relabel label).isDeclaration = kind.isDeclaration := by
  cases label <;> cases kind <;> rfl

@[simp]
theorem isScope_relabel : (kind.relabel label).isScope = kind.isScope := by
  cases label <;> cases kind <;> rfl

@[simp]
theorem isClass_relabel : (kind.relabel label).isClass = kind.isClass := by
  cases label <;> cases kind <;> rfl

@[simp]
theorem isDeclarationStatement_relabel :
    (kind.relabel label).isDeclarationStatement = kind.isDeclarationStatement := by
  cases label <;> cases kind <;> rfl

@[simp]
theorem isVariableRef_relabel : (kind.relabel label).isVariableRef = kind.isVariableRef := by
  cases label <;> cases kind <;> rfl

end Kind

/-! ### Entries and indexes -/

/-- New names for nodes, by their ids. -/
abbrev Labels := NodeId → Option String

/-- The entry with its new name, if it has one. -/
def Entry.relabel (labels : Labels) (e : Entry) : Entry :=
  { e with kind := e.kind.relabel (labels e.id) }

@[simp]
theorem Entry.id_relabel {labels : Labels} (e : Entry) : (e.relabel labels).id = e.id := rfl

@[simp]
theorem Entry.range_relabel {labels : Labels} (e : Entry) :
    (e.relabel labels).range = e.range := rfl

theorem Entry.name?_relabel {labels : Labels} (e : Entry) :
    (e.relabel labels).name? = e.name?.map (labels e.id).getD :=
  e.kind.name?_relabel (labels e.id)

namespace Index

/-- The second index lists the entries of the first under their new names. -/
def Relabels (labels : Labels) (idx idx' : Index) : Prop :=
  idx'.entries = idx.entries.map (Entry.relabel labels)

variable {labels : Labels} {idx idx' : Index}

theorem Relabels.get? (h : Relabels labels idx idx') (id : NodeId) :
    idx'.get? id = (idx.get? id).map (Entry.relabel labels) := by
  rw [Index.get?, h, List.find?_map]
  rfl

private theorem Relabels.filterMap_get? (h : Relabels labels idx idx') (ids : List NodeId) :
    ids.filterMap idx'.get? = (ids.filterMap idx.get?).map (Entry.relabel labels) := by
  rw [List.map_filterMap]
  congr 1
  funext id
  exact h.get? id

theorem Relabels.children (h : Relabels labels idx idx') (id : NodeId) :
    idx'.children id = (idx.children id).map (Entry.relabel labels) := by
  unfold Index.children
  rw [h.get? id]
  cases idx.get? id with
  | none => rfl
  | some e => exact h.filterMap_get? e.children

theorem Relabels.ancestors (h : Relabels labels idx idx') (id : NodeId) :
    idx'.ancestors id = (idx.ancestors id).map (Entry.relabel labels) := by
  unfold Index.ancestors
  rw [h.get? id]
  cases idx.get? id with
  | none => rfl
  | some e => exact h.filterMap_get? e.ancestors

theorem Relabels.scopes (h : Relabels labels idx idx') (id : NodeId) :
    idx'.scopes id = (idx.scopes id).map (Entry.relabel labels) := by
  rw [Index.scopes, h.ancestors, List.filter_map, Index.scopes]
  congr 1
  apply List.filter_congr
  intro e _
  exact e.kind.isScope_relabel _

theorem Relabels.owner? (h : Relabels labels idx idx') (id : NodeId) :
    idx'.owner? id = idx.owner? id := by
  have hclass : (fun e : Entry => e.kind.isClass) ∘ Entry.relabel labels =
      fun e => e.kind.isClass := by
    funext e
    exact e.kind.isClass_relabel _
  rw [Index.owner?, enclosingClass?, h.ancestors, List.find?_map, hclass, Option.map_map]
  rfl

theorem Relabels.declaredVariable? (h : Relabels labels idx idx') (id : NodeId) :
    idx'.declaredVariable? id = (idx.declaredVariable? id).map (Entry.relabel labels) := by
  rw [Index.declaredVariable?, h.children, List.head?_map, Index.declaredVariable?]
  cases (idx.children id).head? with
  | none => rfl
  | some e =>
    have hvar : (e.relabel labels).kind.isVariableRef = e.kind.isVariableRef :=
      e.kind.isVariableRef_relabel _
    cases hv : e.kind.isVariableRef <;> simp [Option.filter, hvar, hv]

theorem Relabels.declaringStatement? (h : Relabels labels idx idx') (id : NodeId) :
    idx'.declaringStatement? id = (idx.declaringStatement? id).map (Entry.relabel labels) := by
  rw [Index.declaringStatement?, Index.declaringStatement?, parent?, parent?, h.ancestors,
    List.head?_map]
  cases (idx.ancestors id).head? with
  | none => rfl
  | some p =>
    have hkind : (p.relabel labels).kind.isDeclarationStatement = p.kind.isDeclarationStatement :=
      p.kind.isDeclarationStatement_relabel _
    have hany : (idx'.declaredVariable? (p.relabel labels).id).any (·.id == id) =
        (idx.declaredVariable? p.id).any (·.id == id) := by
      rw [p.id_relabel, h.declaredVariable?]
      cases idx.declaredVariable? p.id <;> rfl
    simp only [Option.map_some, Option.filter, hkind, hany]
    split <;> rfl

theorem Relabels.declarer? (h : Relabels labels idx idx') (e : Entry) :
    idx'.declarer? (e.relabel labels) = (idx.declarer? e).map (Entry.relabel labels) := by
  have hkind : (e.relabel labels).kind.isDeclaration = e.kind.isDeclaration :=
    e.kind.isDeclaration_relabel _
  rw [Index.declarer?, Index.declarer?, hkind]
  split
  · rfl
  · exact h.declaringStatement? e.id

theorem Relabels.declares (h : Relabels labels idx idx') (e : Entry) :
    idx'.declares (e.relabel labels) = idx.declares e := by
  rw [Index.declares, h.declarer?, Option.isSome_map]
  rfl

end Index

/-! ### Declarations -/

/-- The class with the new name of its node. -/
def ClassDecl.relabel (labels : Labels) (c : ClassDecl) : ClassDecl :=
  { c with name := (labels c.node).getD c.name }

/-- The method with the new name of its node, and with parameters by their new names. -/
def MethodDecl.relabel (labels : Labels) (parameters : NodeId → List ParameterInfo)
    (m : MethodDecl) : MethodDecl :=
  { m with name := (labels m.node).getD m.name, parameters := parameters m.node }

/-- The field with the new name of its node. -/
def FieldDecl.relabel (labels : Labels) (f : FieldDecl) : FieldDecl :=
  { f with name := (labels f.node).getD f.name }

/-- The variable with the new name of its node. -/
def VariableDecl.relabel (labels : Labels) (v : VariableDecl) : VariableDecl :=
  { v with name := (labels v.node).getD v.name }

namespace Index

variable {labels : Labels} {idx idx' : Index}

private theorem classDecl?_relabel (e : Entry) :
    (e.relabel labels).classDecl? = e.classDecl?.map (ClassDecl.relabel labels) := by
  obtain ⟨id, kind, range, children, ancestors⟩ := e
  cases range with
  | none => rfl
  | some range => cases kind <;> cases hl : labels id <;>
      simp [Entry.classDecl?, Entry.relabel, Kind.relabel, Kind.withName, ClassDecl.relabel, hl]

private theorem Relabels.methodDecl? (h : Relabels labels idx idx') (e : Entry) :
    idx'.methodDecl? (e.relabel labels) = (idx.methodDecl? e).map (MethodDecl.relabel labels
      fun id => (idx'.children id).filterMap Entry.parameterInfo?) := by
  obtain ⟨id, kind, range, children, ancestors⟩ := e
  cases range with
  | none => rfl
  | some range => cases kind <;> cases hl : labels id <;>
      simp [Index.methodDecl?, Entry.relabel, Kind.relabel, Kind.withName, MethodDecl.relabel, hl,
        h.owner?]

private theorem Relabels.fieldDecl? (h : Relabels labels idx idx') (e : Entry) :
    idx'.fieldDecl? (e.relabel labels) = (idx.fieldDecl? e).map (FieldDecl.relabel labels) := by
  obtain ⟨id, kind, range, children, ancestors⟩ := e
  cases range with
  | none => rfl
  | some range => cases kind <;> cases hl : labels id <;>
      simp [Index.fieldDecl?, Entry.relabel, Kind.relabel, Kind.withName, FieldDecl.relabel, hl,
        h.owner?]

private theorem Relabels.head?_scopes (h : Relabels labels idx idx') (id : NodeId) :
    (idx'.scopes id).head? = (idx.scopes id).head?.map (Entry.relabel labels) := by
  rw [h.scopes, List.head?_map]

private theorem Relabels.variableDecl? (h : Relabels labels idx idx') (e : Entry) :
    idx'.variableDecl? (e.relabel labels) =
      (idx.variableDecl? e).map (VariableDecl.relabel labels) := by
  obtain ⟨id, kind, range, children, ancestors⟩ := e
  cases range with
  | none => rfl
  | some range =>
    cases kind with
    | parameter name nameRange typeName hasDefault =>
      cases hl : labels id <;> cases hs : (idx.scopes id).head? <;>
        simp [Index.variableDecl?, Entry.relabel, Kind.relabel, Kind.withName, VariableDecl.relabel,
          hl, h.head?_scopes, hs]
    | declaration typeName =>
      have hkind : (Kind.declaration typeName).relabel (labels id) = .declaration typeName := by
        cases labels id <;> rfl
      simp only [Index.variableDecl?, Entry.relabel, hkind, h.declaredVariable?, h.head?_scopes]
      cases idx.declaredVariable? id with
      | none => rfl
      | some target =>
        cases hname : target.name? <;> cases hrange : target.range <;>
          cases hs : (idx.scopes id).head? <;>
          simp [Entry.name?_relabel, hname, hrange, VariableDecl.relabel]
    | _ =>
      cases hl : labels id <;>
        simp [Index.variableDecl?, Entry.relabel, Kind.relabel, Kind.withName, hl]

private theorem importDecl?_relabel {e : Entry}
    (himport : e.importDecl?.isSome → labels e.id = none) :
    (e.relabel labels).importDecl? = e.importDecl? := by
  obtain ⟨id, kind, range, children, ancestors⟩ := e
  cases range with
  | none => rfl
  | some range => cases kind <;> cases hl : labels id <;>
      simp [Entry.importDecl?, Entry.relabel, Kind.relabel, Kind.withName, hl] at himport ⊢

private theorem Relabels.filterMap_entries (h : Relabels labels idx idx') {α : Type} {g : α → α}
    {f f' : Entry → Option α} (hf : ∀ e ∈ idx.entries, f' (e.relabel labels) = (f e).map g) :
    idx'.entries.filterMap f' = (idx.entries.filterMap f).map g := by
  rw [h, List.filterMap_map, List.map_filterMap]
  exact List.filterMap_congr hf

end Index

namespace Snapshot

/-- The second snapshot is of the document of the first under new names; imports have none. -/
structure Relabels (labels : Labels) (s s' : Snapshot) : Prop where
  index : s.index.Relabels labels s'.index
  imports : ∀ e ∈ s.index.entries, e.importDecl?.isSome → labels e.id = none

variable {labels : Labels} {s s' : Snapshot}

theorem Relabels.classes (h : Relabels labels s s') :
    s'.declarations.classes = s.declarations.classes.map (ClassDecl.relabel labels) := by
  rw [s'.declarations_eq, s.declarations_eq]
  exact h.index.filterMap_entries fun e _ => Index.classDecl?_relabel e

theorem Relabels.methods (h : Relabels labels s s') :
    s'.declarations.methods = s.declarations.methods.map (MethodDecl.relabel labels
      fun id => (s'.index.children id).filterMap Entry.parameterInfo?) := by
  rw [s'.declarations_eq, s.declarations_eq]
  exact h.index.filterMap_entries fun e _ => h.index.methodDecl? e

theorem Relabels.fields (h : Relabels labels s s') :
    s'.declarations.fields = s.declarations.fields.map (FieldDecl.relabel labels) := by
  rw [s'.declarations_eq, s.declarations_eq]
  exact h.index.filterMap_entries fun e _ => h.index.fieldDecl? e

theorem Relabels.vars (h : Relabels labels s s') :
    s'.declarations.vars = s.declarations.vars.map (VariableDecl.relabel labels) := by
  rw [s'.declarations_eq, s.declarations_eq]
  exact h.index.filterMap_entries fun e _ => h.index.variableDecl? e

/-- The node of an import keeps its name. -/
theorem Relabels.labels_import (h : Relabels labels s s') {i : ImportDecl}
    (hi : i ∈ s.declarations.imports) : labels i.node = none := by
  rw [s.declarations_eq] at hi
  obtain ⟨e, he, hdecl⟩ := List.mem_filterMap.mp hi
  have hnone := h.imports e he (by rw [hdecl]; rfl)
  obtain ⟨range, -, hmatch⟩ := Option.bind_eq_some_iff.mp hdecl
  split at hmatch
  · cases hmatch
    exact hnone
  · cases hmatch

theorem Relabels.imports_eq (h : Relabels labels s s') :
    s'.declarations.imports = s.declarations.imports := by
  have himport : ∀ e ∈ s.index.entries, (e.relabel labels).importDecl? = e.importDecl?.map id := by
    intro e he
    rw [Index.importDecl?_relabel (h.imports e he), Option.map_id_fun, id]
  rw [s'.declarations_eq, s.declarations_eq]
  exact (h.index.filterMap_entries himport).trans (List.map_id _)

end Snapshot

end GroovyIndex
