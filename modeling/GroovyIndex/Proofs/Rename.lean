import GroovyIndex.Proofs.RenamePlan
import GroovyIndex.Proofs.StableResolution

/-!
# Renaming keeps what nodes refer to

A rename to a fresh name, in a regular document by itself, leaves every node with what it resolved
to, calls to constructors apart. It is enough that a declaration with a node's new name had its
old name, and that what a node refers to gets the node's new name.
-/

namespace GroovyIndex

namespace Kind

private theorem isSome_declaredName? (kind : Kind) :
    kind.declaredName?.isSome = kind.name?.isSome := by
  cases kind <;> rfl

private theorem isSome_name?_of_isDeclaration {kind : Kind} (h : kind.isDeclaration = true) :
    kind.name?.isSome = true := by
  cases kind <;> simp [isDeclaration, name?] at h ⊢

end Kind

namespace Session

variable {s : Session} {target : Definition} {newName : String}

/-! ### The new name of a node -/

/-- A node gets at most one name. -/
theorem Gets.unique (huri : target.uri = s.uri) {e : Entry} {name name' : String}
    (h : s.Gets target newName e name) (h' : s.Gets target newName e name') : name = name' := by
  -- A node that resolves to a field resolves to none of its accessors.
  have hnot {accessor : Accessor} {d : Definition} (hfield : target.kind.hasAccessors = true)
      (hd : d ∈ s.accessorsOf target accessor) (hresolve : s.resolve e = .ok target)
      (hresolve' : s.resolve e = .ok d) : False := by
    rw [hresolve] at hresolve'
    cases hresolve'
    rcases (of_mem_accessorsOf huri hd).2.2 with hkind | hkind <;>
      rw [hkind] at hfield <;> cases hfield
  cases h with
  | occurrence hresolve =>
    cases h' with
    | occurrence => rfl
    | constructor => rfl
    | accessor _ hfield _ hd hresolve' => exact (hnot hfield hd hresolve hresolve').elim
  | constructor hclass =>
    cases h' with
    | occurrence => rfl
    | constructor => rfl
    | accessor _ hfield =>
      rw [hclass] at hfield
      cases hfield
  | @accessor a d _ hfield _ hd hresolve =>
    cases h' with
    | occurrence hresolve' => exact (hnot hfield hd hresolve' hresolve).elim
    | constructor hclass =>
      rw [hclass] at hfield
      cases hfield
    | @accessor b d' _ _ _ hd' hresolve' =>
      rw [hresolve] at hresolve'
      cases hresolve'
      have hname := (of_mem_accessorsOf huri hd).2.1
      rw [(of_mem_accessorsOf huri hd').2.1] at hname
      rw [Accessor.eq_of_methodName_eq hname]

/-- The symbol is declared in the document, which is regular and by itself; it is no import. -/
structure OwnSymbol (s : Session) (target : Definition) : Prop extends ByItself s where
  regular : s.snapshot.parsed.root.Regular
  declared : s.snapshot.definitionFor? target.node = some target
  not_import : target.kind ≠ .importDecl

theorem OwnSymbol.uri_eq (hown : s.OwnSymbol target) : target.uri = s.uri :=
  (Snapshot.node_of_definitionFor? hown.declared).2

/-- An entry whose identifier declares something has a name. -/
private theorem isSome_name?_of_definitionOf? {e : Entry} {d : Definition}
    (h : s.snapshot.definitionOf? e = some d) : e.name?.isSome = true := by
  obtain ⟨-, -, -, -, hname, -⟩ := Snapshot.definitionOf?_eq_some h
  rw [Entry.name?, ← Kind.isSome_declaredName?, hname]
  rfl

/-- A node that resolves to something has a name. -/
private theorem ByItself.isSome_name?_of_resolve (hself : s.ByItself) {e : Entry} {d : Definition}
    (he : e ∈ s.snapshot.index.entries) (h : s.resolve e = .ok d) : e.name?.isSome = true := by
  rw [resolve, hself.chain] at h
  rcases Lookup.resolve_standard_eq_ok h with ⟨-, hdef⟩ | ⟨-, -, -, hname, -⟩
  · rw [Snapshot.definitionFor?_of_mem he] at hdef
    exact isSome_name?_of_definitionOf? hdef
  · rw [hname]
    rfl

/-- A node that gets a name has one. -/
private theorem ByItself.isSome_name?_of_gets (hself : s.ByItself) {e : Entry} {name : String}
    (he : e ∈ s.snapshot.index.entries) (h : s.Gets target newName e name) :
    e.name?.isSome = true := by
  cases h with
  | occurrence hresolve => exact hself.isSome_name?_of_resolve he hresolve
  | constructor _ hm hid =>
    obtain ⟨e', he', hid', -, hdecl⟩ := exists_entry_of_mem_methods (List.mem_filter.mp hm).1
    rw [Index.eq_of_id_eq s.snapshot.distinct he he' (hid.trans hid'.symm)]
    exact Kind.isSome_name?_of_isDeclaration hdecl
  | accessor _ _ _ _ hresolve => exact hself.isSome_name?_of_resolve he hresolve

/-- The new names that a rename of the symbol gives to the nodes of the document. -/
def renameLabels (s : Session) (target : Definition) (newName : String) : Labels :=
  s.snapshot.editLabels (s.renameEdits target newName)

/-- A node gets the text of every edit that starts where its identifier does. -/
private theorem OwnSymbol.gets_of_mem_renameEdits (hown : s.OwnSymbol target) {e : Entry}
    (he : e ∈ s.snapshot.index.entries) (hname : e.name?.isSome = true) {range : Range}
    (hrange : e.nameRange? = some range) {edit : TextEdit}
    (hedit : edit ∈ s.renameEdits target newName) (hstart : edit.range.start = range.start) :
    s.Gets target newName e edit.newText := by
  obtain ⟨e', he', hgets, hrange'⟩ :=
    hown.standard.exists_gets_of_mem_renameEdits hown.declared hedit
  have hname' := hown.isSome_name?_of_gets he' hgets
  have hsame : e' = e := by
    apply Snapshot.eq_of_nameRange?_start hown.regular he' he hname' hname
    rw [hrange', hrange, Option.map_some, Option.map_some, hstart]
  rwa [hsame] at hgets

/-- After a rename the new name of a node is the one that it gets. -/
theorem OwnSymbol.renameLabels_eq_some_iff (hown : s.OwnSymbol target) {e : Entry}
    (he : e ∈ s.snapshot.index.entries) (hname : e.name?.isSome = true) {name : String} :
    s.renameLabels target newName e.id = some name ↔ s.Gets target newName e name := by
  obtain ⟨range, hrange⟩ := Snapshot.exists_nameRange? hown.regular he
  rw [renameLabels, Snapshot.editLabels_of_nameRange? he hrange]
  have hfound {edit : TextEdit}
      (hfind : (s.renameEdits target newName).find? (·.range.start == range.start) = some edit) :
      s.Gets target newName e edit.newText := by
    have hstart := List.find?_some hfind
    exact hown.gets_of_mem_renameEdits he hname hrange (List.mem_of_find?_eq_some hfind)
      (beq_iff_eq.mp hstart)
  constructor
  · intro h
    obtain ⟨edit, hfind, rfl⟩ := Option.map_eq_some_iff.mp h
    exact hfound hfind
  · intro h
    obtain ⟨edit, hedit, hstart, -⟩ :=
      exists_mem_renameEdits_of_gets hown.chain hown.uri_eq h he hrange
    cases hfind : (s.renameEdits target newName).find? (·.range.start == range.start) with
    | none =>
      have hno := List.find?_eq_none.mp hfind edit hedit
      simp [hstart] at hno
    | some found => rw [Option.map_some, (hfound hfind).unique hown.uri_eq h]

/-! ### What nodes refer to -/

/-- A node that does not declare has the name of what it resolves to, and is of a kind that can
refer to it. -/
private theorem ByItself.name?_of_resolve (hself : s.ByItself) {e : Entry} {d : Definition}
    (hnot : s.snapshot.index.declares e = false) (h : s.resolve e = .ok d) :
    e.name? = some d.name ∧ e.kind.mayReferTo d.kind = true := by
  rw [resolve, hself.chain] at h
  rcases Lookup.resolve_standard_eq_ok h with ⟨hdecl, -⟩ | ⟨-, -, -, hname, hkind⟩
  · rw [hnot] at hdecl
    cases hdecl
  · exact ⟨hname, hkind⟩

/-- The node of a constructor declares it. -/
private theorem declares_of_mem_constructorsOf {e : Entry} (he : e ∈ s.snapshot.index.entries)
    {owner : NodeId} {m : MethodDecl} (hm : m ∈ s.snapshot.declarations.constructorsOf owner)
    (hid : e.id = m.node) :
    s.snapshot.index.declares e = true ∧
      s.snapshot.definitionFor? e.id = some (m.definition s.uri) ∧
      (m.definition s.uri).kind = .constructor := by
  obtain ⟨hmem, hconstructs⟩ := List.mem_filter.mp hm
  obtain ⟨e', he', hid', -, hdecl⟩ := exists_entry_of_mem_methods hmem
  refine ⟨?_, ?_, ?_⟩
  · rw [Index.eq_of_id_eq s.snapshot.distinct he he' (hid.trans hid'.symm)]
    exact s.snapshot.index.declares_of_isDeclaration hdecl
  · rw [hid]
    exact Snapshot.definitionFor?_of_mem_methods hmem
  · have hc : m.isConstructor = true := (Bool.and_eq_true_iff.mp hconstructs).1
    simp [MethodDecl.definition, hc]

/-- The node is a call that resolves to a constructor. -/
def CallsConstructor (s : Session) (e : Entry) : Prop :=
  ∃ name range implicitThis d, e.kind = .call name range implicitThis ∧ s.resolve e = .ok d ∧
    d.kind = .constructor

/-- A node gets the name that the declaration gets to which it refers, calls to
constructors apart. -/
private theorem ByItself.gets_iff_gets (hself : s.ByItself) {e x : Entry} {d : Definition}
    (he : e ∈ s.snapshot.index.entries) (hx : x ∈ s.snapshot.index.entries)
    (hnot : s.snapshot.index.declares e = false) (hcall : ¬ s.CallsConstructor e)
    (hresolve : s.resolve e = .ok d) (hresolve' : s.resolve x = .ok d)
    (hdef : s.snapshot.definitionFor? x.id = some d) {name : String} :
    s.Gets target newName e name ↔ s.Gets target newName x name := by
  constructor
  · intro h
    cases h with
    | occurrence h =>
      rw [hresolve] at h
      exact .occurrence (hresolve'.trans h)
    | constructor _ hm hid =>
      rw [(declares_of_mem_constructorsOf he hm hid).1] at hnot
      cases hnot
    | accessor hsynth hfield hof hd h =>
      rw [hresolve] at h
      exact .accessor hsynth hfield hof hd (hresolve'.trans h)
  · intro h
    cases h with
    | occurrence h =>
      rw [hresolve'] at h
      exact .occurrence (hresolve.trans h)
    | @constructor m _ hm hid =>
      obtain ⟨-, hdef', hkind'⟩ := declares_of_mem_constructorsOf hx hm hid
      rw [hdef] at hdef'
      cases hdef'
      have hkind := (hself.name?_of_resolve hnot hresolve).2
      rw [hkind'] at hkind
      cases hk : e.kind with
      | call name range implicitThis =>
        exact absurd ⟨name, range, implicitThis, _, hk, hresolve, hkind'⟩ hcall
      | _ => simp [hk, Kind.mayReferTo] at hkind
    | accessor hsynth hfield hof hd h =>
      rw [hresolve'] at h
      exact .accessor hsynth hfield hof hd (hresolve.trans h)

/-- What a node refers to keeps the name of the node. -/
private theorem OwnSymbol.keeps (hown : s.OwnSymbol target) {e : Entry}
    (he : e ∈ s.snapshot.index.entries) (hcall : ¬ s.CallsConstructor e) {name : String}
    {id : NodeId} (hname : e.name? = some name) (hnot : s.snapshot.index.declares e = false)
    (hid : Lookup.lexicalTarget? ⟨s.snapshot, [], e⟩ = some (some id)) :
    Keeps (s.renameLabels target newName) name
      ((s.renameLabels target newName e.id).getD name) id := by
  rcases Lookup.lexicalTarget?_eq_some hid with ⟨hdecl, -⟩ | ⟨-, d, hdef, -⟩
  · rw [hnot] at hdecl
    cases hdecl
  · have hresolve : s.resolve e = .ok d := by
      rw [hown.resolve_eq, Lookup.alone_eq_ok_iff]
      exact ⟨id, hid, hdef⟩
    obtain ⟨x, hx, rfl, hof, hresolve'⟩ := exists_resolve_of_definitionFor? hown.chain hdef
    have hsome : e.name?.isSome = true := by rw [hname]; rfl
    have hlabel : s.renameLabels target newName x.id = s.renameLabels target newName e.id := by
      apply Option.ext
      intro label
      rw [hown.renameLabels_eq_some_iff hx (isSome_name?_of_definitionOf? hof),
        hown.renameLabels_eq_some_iff he hsome]
      exact (hown.gets_iff_gets he hx hnot hcall hresolve hresolve' hdef).symm
    rw [Keeps, hlabel]

/-! ### Fresh names -/

/-- No node has the name and no import goes by it; nor has a node the name of an accessor that the
rename makes of it. -/
structure Fresh (s : Session) (pos : Position) (newName : String) : Prop where
  names : ∀ e ∈ s.snapshot.index.entries, e.name? ≠ some newName
  imports : ∀ e ∈ s.snapshot.index.entries, e.kind.declaredName? ≠ some newName
  accessors : ∀ e target, s.renameTarget pos = .ok (e, target) →
    s.config.synthesizeAccessors = true → target.kind.hasAccessors = true →
    ∀ accessor ∈ Accessor.ofType target.typeName, ∀ n ∈ s.snapshot.index.entries,
      n.name? ≠ some (accessor.methodName newName)

/-- No node has a name that some node gets. -/
private theorem Fresh.ne_of_gets {pos : Position} {at' e x : Entry} {name : String}
    (hfresh : s.Fresh pos newName) (hrename : s.renameTarget pos = .ok (at', target))
    (h : s.Gets target newName e name) (hx : x ∈ s.snapshot.index.entries) :
    x.name? ≠ some name := by
  cases h with
  | occurrence => exact hfresh.names x hx
  | constructor => exact hfresh.names x hx
  | accessor hsynth hfield hof => exact hfresh.accessors at' target hrename hsynth hfield _ hof x hx

/-- A declaration that gets the name which a node gets had the old name of the node. -/
private theorem OwnSymbol.name_eq_of_gets (hown : s.OwnSymbol target) {e x : Entry} {d : Definition}
    {name label label' : String} (he : e ∈ s.snapshot.index.entries)
    (hx : x ∈ s.snapshot.index.entries) (hnot : s.snapshot.index.declares e = false)
    (hname : e.name? = some name) (hkind : e.kind.mayReferTo d.kind = true)
    (hresolve : s.resolve x = .ok d) (hdef : s.snapshot.definitionFor? x.id = some d)
    (h : s.Gets target newName e label) (h' : s.Gets target newName x label')
    (heq : label' = label) : d.name = name := by
  cases h with
  | occurrence hoccurs =>
    obtain ⟨hname', hkind'⟩ := hown.name?_of_resolve hnot hoccurs
    rw [hname] at hname'
    cases hname'
    cases h' with
    | occurrence hoccurs' =>
      rw [hresolve] at hoccurs'
      cases hoccurs'
      rfl
    | constructor hclass hm hid =>
      -- No kind of node refers both to classes and to constructors.
      obtain ⟨-, hdef', hconstructor⟩ := declares_of_mem_constructorsOf hx hm hid
      rw [hdef] at hdef'
      cases hdef'
      rw [hconstructor] at hkind
      rw [hclass] at hkind'
      cases hk : e.kind <;> simp [hk, Kind.mayReferTo] at hkind hkind'
    | @accessor a => exact absurd heq (a.methodName_ne newName)
  | constructor _ hm hid =>
    rw [(declares_of_mem_constructorsOf he hm hid).1] at hnot
    cases hnot
  | @accessor a d₁ _ _ _ hd hoccurs =>
    have hname' := (hown.name?_of_resolve hnot hoccurs).1
    rw [hname, (of_mem_accessorsOf hown.uri_eq hd).2.1] at hname'
    cases hname'
    cases h' with
    | occurrence => exact absurd heq.symm (a.methodName_ne newName)
    | constructor => exact absurd heq.symm (a.methodName_ne newName)
    | @accessor b d₂ _ _ _ hd' hoccurs' =>
      rw [hresolve] at hoccurs'
      cases hoccurs'
      rw [(of_mem_accessorsOf hown.uri_eq hd').2.1, Accessor.eq_of_methodName_eq heq]

/-- A declaration that keeps its name does not have the name that a node gets. -/
private theorem Fresh.name_ne_of_gets {pos : Position} {at' e x : Entry} {d : Definition}
    {label : String} (hfresh : s.Fresh pos newName) (hown : s.OwnSymbol target)
    (hrename : s.renameTarget pos = .ok (at', target)) (he : e ∈ s.snapshot.index.entries)
    (hx : x ∈ s.snapshot.index.entries) (hnot : s.snapshot.index.declares e = false)
    (hkind : e.kind.mayReferTo d.kind = true) (hof : s.snapshot.definitionOf? x = some d)
    (h : s.Gets target newName e label) : d.name ≠ label := by
  obtain ⟨-, -, -, -, hdeclared, -⟩ := Snapshot.definitionOf?_eq_some hof
  intro heq
  cases h with
  | occurrence =>
    rw [heq] at hdeclared
    exact hfresh.imports x hx hdeclared
  | constructor _ hm hid =>
    rw [(declares_of_mem_constructorsOf he hm hid).1] at hnot
    cases hnot
  | accessor hsynth hfield hof' hd hoccurs =>
    -- A node that refers to a method is a call, and calls do not refer to imports.
    have hcall := (hown.name?_of_resolve hnot hoccurs).2
    have himport : d.kind ≠ .importDecl := by
      intro himport
      rw [himport] at hkind
      rcases (of_mem_accessorsOf hown.uri_eq hd).2.2 with hmethod | hmethod <;>
        rw [hmethod] at hcall <;> cases hk : e.kind <;> simp [hk, Kind.mayReferTo] at hcall hkind
    have hname := Snapshot.name?_of_definitionOf? hof himport
    rw [heq] at hname
    exact hfresh.accessors at' target hrename hsynth hfield _ hof' x hx hname

/-- Declarations that get the new name of a node had its old name. -/
private theorem Fresh.apart {pos : Position} {at' e : Entry} {name : String}
    (hfresh : s.Fresh pos newName) (hown : s.OwnSymbol target)
    (hrename : s.renameTarget pos = .ok (at', target)) (he : e ∈ s.snapshot.index.entries)
    (hname : e.name? = some name) (hnot : s.snapshot.index.declares e = false) :
    s.snapshot.Apart (s.renameLabels target newName) e.kind.mayReferTo name
      ((s.renameLabels target newName e.id).getD name) := by
  intro d hdef hkind hnew
  obtain ⟨x, hx, hid, hof, hresolve⟩ := exists_resolve_of_definitionFor? hown.chain hdef
  rw [← hid] at hnew hdef
  have hgets {label : String} : s.renameLabels target newName e.id = some label ↔
      s.Gets target newName e label := hown.renameLabels_eq_some_iff he (by rw [hname]; rfl)
  have hgets' {label : String} : s.renameLabels target newName x.id = some label ↔
      s.Gets target newName x label :=
    hown.renameLabels_eq_some_iff hx (isSome_name?_of_definitionOf? hof)
  cases hx' : s.renameLabels target newName x.id with
  | none =>
    rw [hx', Option.getD_none] at hnew
    cases he' : s.renameLabels target newName e.id with
    | none => rwa [he', Option.getD_none] at hnew
    | some label =>
      rw [he', Option.getD_some] at hnew
      exact absurd hnew (hfresh.name_ne_of_gets hown hrename he hx hnot hkind hof (hgets.mp he'))
  | some label' =>
    rw [hx', Option.getD_some] at hnew
    cases he' : s.renameLabels target newName e.id with
    | none =>
      rw [he', Option.getD_none] at hnew
      rw [hnew] at hx'
      exact absurd hname (hfresh.ne_of_gets hrename (hgets'.mp hx') he)
    | some label =>
      rw [he', Option.getD_some] at hnew
      exact hown.name_eq_of_gets he hx hnot hname hkind hresolve hdef (hgets.mp he') (hgets'.mp hx')
        hnew

/-! ### The renamed document -/

/-- The session after a batch of edits; the document is indexed anew. -/
def after (s : Session) (batch : EditBatch) : Session :=
  { s with snapshot := s.snapshot.edited (batch.editsFor s.uri) }

private theorem exists_kind_of_importDecl? {e : Entry} (h : e.importDecl?.isSome = true) :
    ∃ path asName isStatic isStar, e.kind = .importDecl path asName isStatic isStar := by
  obtain ⟨i, hi⟩ := Option.isSome_iff_exists.mp h
  obtain ⟨range, -, hmatch⟩ := Option.bind_eq_some_iff.mp hi
  cases hk : e.kind <;> simp [hk] at hmatch ⊢

/-- Imports get no new name. -/
private theorem OwnSymbol.renameLabels_import (hown : s.OwnSymbol target) {e : Entry}
    (he : e ∈ s.snapshot.index.entries) (himport : e.importDecl?.isSome = true) :
    s.renameLabels target newName e.id = none := by
  obtain ⟨path, asName, isStatic, isStar, hk⟩ := exists_kind_of_importDecl? himport
  -- The node defines an import, and it resolves to nothing else.
  have hdefined {d : Definition} (hdef : s.snapshot.definitionFor? e.id = some d) :
      d.kind = .importDecl := by
    rw [Snapshot.definitionFor?_of_mem he] at hdef
    obtain ⟨-, -, -, hkind, -⟩ := Snapshot.definitionOf?_eq_some hdef
    rw [hk] at hkind
    exact (Option.some.inj hkind).symm
  have hresolved {d : Definition} (h : s.resolve e = .ok d) : d.kind = .importDecl := by
    rw [resolve, hown.chain] at h
    rcases Lookup.resolve_standard_eq_ok h with ⟨-, hdef⟩ | ⟨-, -, -, -, hkind⟩
    · exact hdefined hdef
    · rw [hk] at hkind
      cases hkind
  rw [Option.eq_none_iff_forall_ne_some]
  intro label hlabel
  rw [hown.renameLabels_eq_some_iff he (by rw [Entry.name?, hk]; rfl)] at hlabel
  cases hlabel with
  | occurrence h => exact hown.not_import (hresolved h)
  | constructor _ hm hid =>
    obtain ⟨-, hdef, hconstructor⟩ := declares_of_mem_constructorsOf he hm hid
    rw [hdefined hdef] at hconstructor
    cases hconstructor
  | accessor _ _ _ hd h =>
    rcases (of_mem_accessorsOf hown.uri_eq hd).2.2 with hmethod | hmethod <;>
      rw [hresolved h] at hmethod <;> cases hmethod

private theorem OwnSymbol.relabels (hown : s.OwnSymbol target) :
    s.snapshot.Relabels (s.renameLabels target newName)
      (s.snapshot.edited (s.renameEdits target newName)) where
  index := Snapshot.relabels_edited hown.regular
  imports := fun _ he himport => hown.renameLabels_import he himport

/-- After a rename to a fresh name every node resolves as it did, calls to constructors apart. -/
theorem rename_preserves_resolution (s : Session) (hchain : s.chain = .standard)
    (haux : s.auxiliary = []) (htree : s.snapshot.parsed.root.Regular) {pos : Position}
    {newName : String} {batch : EditBatch} (hrename : s.rename pos newName = .ok batch)
    (hfresh : s.Fresh pos newName) :
    ∀ n ∈ s.snapshot.parsed.root.preorder, ∃ e e',
      s.snapshot.index.get? n.id = some e ∧ (s.after batch).snapshot.index.get? n.id = some e' ∧
      (¬ s.CallsConstructor e →
        ((s.after batch).resolve e').map Definition.node = (s.resolve e).map Definition.node) ∧
      (∀ at' target, s.renameTarget pos = .ok (at', target) → s.resolve e = .ok target →
        e'.name? = some newName) := by
  have hself : s.ByItself := ⟨hchain, haux⟩
  have hafter : (s.after batch).ByItself := ⟨hchain, haux⟩
  obtain ⟨at', target, htarget, hbatch⟩ := rename_eq_ok hrename
  obtain ⟨hdeclared, hnot⟩ := hself.renameTarget_eq_ok htarget
  have hown : s.OwnSymbol target := ⟨hself, htree, hdeclared, hnot⟩
  have hrelabels :
      s.snapshot.Relabels (s.renameLabels target newName) (s.after batch).snapshot := by
    rw [after, hbatch]
    exact hown.relabels
  intro n hn
  obtain ⟨e, he, hid⟩ := Snapshot.exists_entry_of_mem_preorder htree hn
  have hget : s.snapshot.index.get? n.id = some e := by
    rw [← hid]
    exact Index.get?_of_mem s.snapshot.distinct he
  refine ⟨e, e.relabel (s.renameLabels target newName), hget, ?_, ?_, ?_⟩
  · exact (hrelabels.index.get? n.id).trans (by rw [hget]; rfl)
  · intro hcall
    rw [hafter.resolve_eq, hself.resolve_eq]
    apply Lookup.alone_relabel hrelabels
    · intro name hname hdecl
      exact hfresh.apart hown htarget he hname hdecl
    · intro name id hname hdecl hid
      exact hown.keeps he hcall hname hdecl hid
  · intro at'' target' htarget' hresolve
    rw [htarget] at htarget'
    cases htarget'
    have hsome := hself.isSome_name?_of_resolve he hresolve
    have hlabel : s.renameLabels target newName e.id = some newName :=
      (hown.renameLabels_eq_some_iff he hsome).mpr (.occurrence hresolve)
    obtain ⟨old, hold⟩ := Option.isSome_iff_exists.mp hsome
    rw [Entry.name?_relabel, hold, hlabel]
    rfl

private def fieldUse : Node := ⟨⟨4⟩, .variableRef "size", some (.ofCorners 2 18 2 22), []⟩

private def getterCall : Node :=
  ⟨⟨6⟩, .call "getSize" (some (.ofCorners 3 15 3 22)) true, some (.ofCorners 3 15 3 24), []⟩

/-- A class with a field and its getter. The getter uses the field, and a method
calls the getter. -/
private def box : Session where
  snapshot := .ofParsed (.clean ⟨⟨"file:///box.groovy"⟩, 1⟩
    ⟨⟨0⟩, .moduleRoot, some (.ofCorners 0 0 5 0),
      [⟨⟨1⟩, .classDecl "Box" (some (.ofCorners 0 6 0 9)) false, some (.ofCorners 0 0 4 1),
        [⟨⟨2⟩, .fieldDecl "size" (some (.ofCorners 1 6 1 10)) (some "int"),
          some (.ofCorners 1 2 1 10), []⟩,
         ⟨⟨3⟩, .methodDecl "getSize" (some (.ofCorners 2 6 2 13)) (some "int") false,
          some (.ofCorners 2 2 2 24), [fieldUse]⟩,
         ⟨⟨5⟩, .methodDecl "area" (some (.ofCorners 3 6 3 10)) none false,
          some (.ofCorners 3 2 3 26), [getterCall]⟩]⟩]⟩) 0
  auxiliary := []
  chain := .standard
  config := {}

private theorem box_regular : box.snapshot.parsed.root.Regular :=
  ⟨by decide, by decide, by decide⟩

private theorem box_fresh : box.Fresh ⟨1, 6⟩ "width" where
  names := by decide
  imports := by decide
  accessors := by
    intro e target htarget _ _
    cases htarget
    decide

/-- After the field is renamed, its use has the new name and the call still finds the getter. -/
theorem rename_preserves_resolution_getter :
    box.snapshot.parsed.root.Regular ∧ box.Fresh ⟨1, 6⟩ "width" ∧
    ∃ batch, box.rename ⟨1, 6⟩ "width" = .ok batch ∧
      (∃ e', (box.after batch).snapshot.index.get? fieldUse.id = some e' ∧
        e'.name? = some "width") ∧
      (∃ e', (box.after batch).snapshot.index.get? getterCall.id = some e' ∧
        ((box.after batch).resolve e').map Definition.node = .ok ⟨3⟩) := by
  refine ⟨box_regular, box_fresh, _, rfl, ?_, ?_⟩
  · obtain ⟨e, e', he, he', -, hname⟩ :=
      rename_preserves_resolution box rfl rfl box_regular rfl box_fresh fieldUse
        (List.mem_of_getElem? (i := 4) rfl)
    cases he
    exact ⟨e', he', hname _ _ rfl rfl⟩
  · obtain ⟨e, e', he, he', hkeep, -⟩ :=
      rename_preserves_resolution box rfl rfl box_regular rfl box_fresh getterCall
        (List.mem_of_getElem? (i := 6) rfl)
    cases he
    refine ⟨e', he', (hkeep ?_).trans rfl⟩
    rintro ⟨name, range, implicitThis, d, -, hresolve, hkind⟩
    cases hresolve
    cases hkind

end Session

end GroovyIndex
