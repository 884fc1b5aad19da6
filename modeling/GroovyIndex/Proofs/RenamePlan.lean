import GroovyIndex.Proofs.EditBatch
import GroovyIndex.Proofs.EditedTree
import GroovyIndex.Proofs.Occurrences

/-!
# What a rename edits

A rename edits the nodes that resolve to the renamed symbol, the constructors of a renamed class,
and the nodes that resolve to an accessor of a renamed field. `Gets` says which node gets which
name. The plan of a rename has an edit for every such node, at its identifier, and no other edit.
-/

namespace GroovyIndex

/-! ### Names of accessors -/

namespace Accessor

/-- The name of an accessor is longer than that of the field. -/
theorem length_lt_methodName (a : Accessor) (name : String) :
    name.length < (a.methodName name).length := by
  have hword : 2 ≤ a.word.length := by cases a <;> decide
  have hcapital : name.length ≤ (capitalize name).length + 1 := by
    rw [← String.length_toList]
    unfold capitalize
    cases name.toList with
    | nil => simp
    | cons first rest => simp
  rw [methodName, String.length_append]
  omega

theorem methodName_ne (a : Accessor) (name : String) : a.methodName name ≠ name := by
  intro h
  have hlt := a.length_lt_methodName name
  rw [h] at hlt
  exact Nat.lt_irrefl _ hlt

/-- The name of an accessor says which kind of accessor it is. -/
theorem eq_of_methodName_eq {a b : Accessor} {name : String}
    (h : a.methodName name = b.methodName name) : a = b := by
  have hlist := congrArg String.toList h
  simp only [methodName, String.toList_append] at hlist
  have hhead := congrArg List.head? hlist
  cases a <;> cases b <;> simp [word] at hhead ⊢

end Accessor

namespace Session

variable {s : Session}

/-! ### The plan -/

/-- An edit to each occurrence. -/
def editsTo (references : List Reference) (newText : String) : List (Uri × TextEdit) :=
  references.map fun r => (r.location.uri, ⟨r.location.range, newText⟩)

/-- The edits that a rename adds, one after the other. -/
def renamePlan (s : Session) (target : Definition) (newName : String) : List (Uri × TextEdit) :=
  editsTo (s.referencesTo target true) newName ++
    ((if target.kind = .classDecl then editsTo (s.constructorNames target) newName else []) ++
      if s.config.synthesizeAccessors && target.kind.hasAccessors then
        (Accessor.ofType target.typeName).flatMap fun accessor =>
          (s.accessorsOf target accessor).flatMap fun d =>
            editsTo (s.referencesTo d true) (accessor.methodName newName)
      else [])

private theorem addAll_eq (batch : EditBatch) (references : List Reference) (newText : String) :
    batch.addAll references newText = batch.addEach (editsTo references newText) := by
  rw [EditBatch.addAll, EditBatch.addEach, editsTo, List.foldl_map]

private theorem addEach_flatMap {α : Type} (batch : EditBatch) (xs : List α)
    (plan : α → List (Uri × TextEdit)) :
    batch.addEach (xs.flatMap plan) = xs.foldl (fun batch x => batch.addEach (plan x)) batch := by
  rw [EditBatch.addEach, List.foldl_flatMap]
  rfl

private theorem addConstructors_eq (target : Definition) (newName : String) (batch : EditBatch) :
    s.addConstructors target newName batch = batch.addEach
      (if target.kind = .classDecl then editsTo (s.constructorNames target) newName else []) := by
  unfold addConstructors
  split
  · exact addAll_eq _ _ _
  · rfl

private theorem addAccessors_eq (target : Definition) (newName : String) (batch : EditBatch) :
    s.addAccessors target newName batch = batch.addEach
      (if s.config.synthesizeAccessors && target.kind.hasAccessors then
        (Accessor.ofType target.typeName).flatMap fun accessor =>
          (s.accessorsOf target accessor).flatMap fun d =>
            editsTo (s.referencesTo d true) (accessor.methodName newName)
      else []) := by
  unfold addAccessors
  split
  · simp only [addEach_flatMap, addAll_eq]
  · rfl

/-- A rename to an identifier adds the edits of its plan and puts them in order, unless the symbol
has no occurrence. -/
theorem rename_of_isValid {newName : String} (h : Identifier.isValid newName = true)
    (pos : Position) :
    s.rename pos newName = (s.renameTarget pos).bind fun start =>
      if (s.referencesTo start.2 true).isEmpty then .error .nodeNotFound
      else .ok (EditBatch.empty.addEach (s.renamePlan start.2 newName)).normalize := by
  have hplan (target : Definition) : EditBatch.empty.addEach (s.renamePlan target newName) =
      s.addAccessors target newName (s.addConstructors target newName
        (EditBatch.empty.addAll (s.referencesTo target true) newName)) := by
    rw [renamePlan, EditBatch.addEach_append, EditBatch.addEach_append, addAll_eq,
      addConstructors_eq, addAccessors_eq]
  simp only [hplan, rename, Identifier.validate, h, if_true]
  rfl

/-- A rename to anything else fails. -/
theorem rename_of_not_isValid {newName : String} (h : Identifier.isValid newName = false)
    (pos : Position) : s.rename pos newName = .error (.invalidIdentifier newName) := by
  simp only [rename, Identifier.validate, h, Bool.false_eq_true, if_false]
  rfl

/-- What succeeds in two steps succeeds in each. -/
theorem exists_of_bind_eq_ok {ε α β : Type} {x : Except ε α} {f : α → Except ε β} {b : β}
    (h : x.bind f = .ok b) : ∃ a, x = .ok a ∧ f a = .ok b := by
  cases x with
  | error _ => cases h
  | ok a => exact ⟨a, rfl, h⟩

theorem entryAt?_of_entryAt {pos : Position} {e : Entry} (h : s.entryAt pos = .ok e) :
    s.snapshot.index.entryAt? pos = some e := by
  unfold entryAt at h
  split at h
  · next e' he => rw [he, Except.ok.inj h]
  · cases h

/-- A rename that succeeds adds the edits of its plan and puts them in order. -/
theorem rename_eq_ok {pos : Position} {newName : String} {batch : EditBatch}
    (h : s.rename pos newName = .ok batch) :
    ∃ e target, s.renameTarget pos = .ok (e, target) ∧
      batch = (EditBatch.empty.addEach (s.renamePlan target newName)).normalize := by
  cases hvalid : Identifier.isValid newName with
  | false =>
    rw [rename_of_not_isValid hvalid] at h
    cases h
  | true =>
    rw [rename_of_isValid hvalid] at h
    obtain ⟨⟨e, target⟩, htarget, h⟩ := exists_of_bind_eq_ok h
    refine ⟨e, target, htarget, ?_⟩
    split at h
    · cases h
    · exact (Except.ok.inj h).symm

/-- A rename that can be prepared starts from the identifier of a node. -/
theorem prepareRename_eq_ok {pos : Position} {range : Range} (h : s.prepareRename pos = .ok range) :
    ∃ e target, s.renameTarget pos = .ok (e, target) ∧ e.nameRange? = some range := by
  obtain ⟨⟨e, target⟩, htarget, h⟩ := exists_of_bind_eq_ok h
  refine ⟨e, target, htarget, ?_⟩
  simp only at h
  split at h
  · next range' hrange => rw [hrange, Except.ok.inj h]
  · cases h

/-! ### The renamed symbol -/

/-- What a rename starts from: the node at the position, what it resolves to, and what is renamed in
place of that. -/
theorem renameTarget_eq_ok {pos : Position} {e : Entry} {target : Definition}
    (h : s.renameTarget pos = .ok (e, target)) :
    ∃ found, s.snapshot.index.entryAt? pos = some e ∧ s.resolve e = .ok found ∧
      found.uri = s.uri ∧ s.renamedWith found = .ok target ∧ s.keepsName target = false ∧
      s.config.isRenameable e.kind = true := by
  obtain ⟨e', hat, h⟩ := exists_of_bind_eq_ok h
  split at h
  · next hrenameable =>
    obtain ⟨found, hfound, h⟩ := exists_of_bind_eq_ok h
    split at h
    · next huri =>
      obtain ⟨target', htarget, h⟩ := exists_of_bind_eq_ok h
      split at h
      · cases h
      · next hkeeps =>
        cases h
        exact ⟨found, entryAt?_of_entryAt hat, hfound, huri, htarget, by simpa using hkeeps,
          hrenameable⟩
    · cases h
  · cases h

/-- What is renamed in place of a definition: itself, or with a constructor its class. -/
theorem renamedWith_eq_ok {found target : Definition} (h : s.renamedWith found = .ok target) :
    (target = found ∧ ∀ owner, found.kind = .constructor → found.owner ≠ some owner) ∨
      ∃ owner, found.kind = .constructor ∧ found.owner = some owner ∧
        s.snapshot.definitionFor? owner = some target := by
  unfold renamedWith at h
  split at h
  · next owner hkind howner =>
    split at h
    · next d hd =>
      cases h
      exact Or.inr ⟨owner, hkind, howner, hd⟩
    · cases h
  · next hother =>
    cases h
    exact Or.inl ⟨rfl, hother⟩

/-- The symbol that a rename changes is declared in the document, if no auxiliary document has the
name of the document. -/
theorem definitionFor?_of_renameTarget (hchain : s.chain = .standard)
    (hown : s.uri ∉ s.auxiliary.map Snapshot.uri) {pos : Position} {e : Entry} {target : Definition}
    (h : s.renameTarget pos = .ok (e, target)) :
    s.snapshot.definitionFor? target.node = some target := by
  obtain ⟨found, -, hfound, huri, hwith, -⟩ := renameTarget_eq_ok h
  rcases renamedWith_eq_ok hwith with ⟨rfl, -⟩ | ⟨owner, -, -, hclass⟩
  · exact definitionFor?_of_resolve hchain hown hfound huri
  · rwa [(Snapshot.node_of_definitionFor? hclass).1]

/-- The session resolves by the standard chain, and the documents that it can see
have different names. -/
structure Standard (s : Session) : Prop where
  chain : s.chain = .standard
  uris : s.DistinctUris

namespace Standard

variable (hs : s.Standard)
include hs

/-- No auxiliary document has the name of the document. -/
theorem uri_notMem : s.uri ∉ s.auxiliary.map Snapshot.uri := (List.nodup_cons.mp hs.uris).1

/-- What a node resolves to is declared in the document, if it has the name of the document. -/
theorem definitionFor?_of_resolve {e : Entry} {d : Definition} (h : s.resolve e = .ok d)
    (huri : d.uri = s.uri) : s.snapshot.definitionFor? d.node = some d :=
  Session.definitionFor?_of_resolve hs.chain hs.uri_notMem h huri

/-- The symbol that a rename changes is declared in the document, and is no import. -/
theorem declared_of_renameTarget {pos : Position} {e : Entry} {target : Definition}
    (h : s.renameTarget pos = .ok (e, target)) :
    s.snapshot.definitionFor? target.node = some target ∧ target.kind ≠ .importDecl := by
  refine ⟨definitionFor?_of_renameTarget hs.chain hs.uri_notMem h, ?_⟩
  obtain ⟨-, -, -, -, -, hkeeps, -⟩ := renameTarget_eq_ok h
  intro hkind
  simp [keepsName, hkind] at hkeeps

end Standard

/-- The session resolves by the standard chain and sees no other document. -/
structure ByItself (s : Session) : Prop where
  chain : s.chain = .standard
  auxiliary : s.auxiliary = []

namespace ByItself

variable (hself : s.ByItself)
include hself

theorem standard : s.Standard where
  chain := hself.chain
  uris := by
    rw [DistinctUris, hself.auxiliary]
    exact List.nodup_singleton _

theorem resolve_eq (e : Entry) : s.resolve e = Lookup.alone ⟨s.snapshot, [], e⟩ := by
  rw [resolve, hself.chain, hself.auxiliary]
  exact Lookup.resolve_standard_alone rfl

/-- The symbol that a rename changes is declared in the document, and is no import. -/
theorem renameTarget_eq_ok {pos : Position} {e : Entry} {target : Definition}
    (h : s.renameTarget pos = .ok (e, target)) :
    s.snapshot.definitionFor? target.node = some target ∧ target.kind ≠ .importDecl :=
  hself.standard.declared_of_renameTarget h

end ByItself

/-! ### Nodes and their new names -/

/-- The rename of a symbol gives the node the name. -/
inductive Gets (s : Session) (target : Definition) (newName : String) (e : Entry) : String → Prop
  /-- The node is an occurrence of the symbol. -/
  | occurrence (h : s.resolve e = .ok target) : Gets s target newName e newName
  /-- The node is a constructor of the class. -/
  | constructor {m : MethodDecl} (hclass : target.kind = .classDecl)
      (hm : m ∈ s.snapshot.declarations.constructorsOf target.node) (hnode : e.id = m.node) :
      Gets s target newName e newName
  /-- The node is an occurrence of an accessor of the field. -/
  | accessor {accessor : Accessor} {d : Definition} (hsynth : s.config.synthesizeAccessors = true)
      (hfield : target.kind.hasAccessors = true) (hof : accessor ∈ Accessor.ofType target.typeName)
      (hd : d ∈ s.accessorsOf target accessor) (h : s.resolve e = .ok d) :
      Gets s target newName e (accessor.methodName newName)

/-- The accessors of a field are the methods of its class whose names are made of its name. -/
theorem mem_accessorsOf_iff {target d : Definition} {accessor : Accessor}
    (huri : target.uri = s.uri) :
    d ∈ s.accessorsOf target accessor ↔ ∃ m ∈ s.snapshot.declarations.methods,
      m.name = accessor.methodName target.name ∧ m.owner = target.owner ∧
        m.definition s.uri = d := by
  rw [accessorsOf, snapshotOf?, if_pos huri, List.mem_filterMap]
  constructor
  · rintro ⟨m, hm, hdef⟩
    obtain ⟨hnamed, howner⟩ := List.mem_filter.mp hm
    obtain ⟨hmem, hname⟩ := List.mem_filter.mp hnamed
    rw [Snapshot.definitionFor?_of_mem_methods hmem] at hdef
    exact ⟨m, hmem, beq_iff_eq.mp hname, beq_iff_eq.mp howner, Option.some.inj hdef⟩
  · rintro ⟨m, hmem, hname, howner, rfl⟩
    refine ⟨m, ?_, Snapshot.definitionFor?_of_mem_methods hmem⟩
    simp [Declarations.methodsNamed, hmem, hname, howner]

/-- An accessor is a method of the document whose name is made of that of the field. -/
theorem of_mem_accessorsOf {target d : Definition} {accessor : Accessor}
    (huri : target.uri = s.uri) (h : d ∈ s.accessorsOf target accessor) :
    s.snapshot.definitionFor? d.node = some d ∧ d.name = accessor.methodName target.name ∧
      (d.kind = .method ∨ d.kind = .constructor) := by
  obtain ⟨m, hmem, hname, -, rfl⟩ := (mem_accessorsOf_iff huri).mp h
  refine ⟨Snapshot.definitionFor?_of_mem_methods hmem, hname, ?_⟩
  cases hc : m.isConstructor <;> simp [MethodDecl.definition, hc]

/-- The edits that a rename of the symbol makes in the document. -/
def renameEdits (s : Session) (target : Definition) (newName : String) : List TextEdit :=
  (EditBatch.empty.addEach (s.renamePlan target newName)).normalize.editsFor s.uri

/-- A listed method stands at an entry with its name and identifier. -/
theorem exists_entry_of_mem_methods {m : MethodDecl} (h : m ∈ s.snapshot.declarations.methods) :
    ∃ e ∈ s.snapshot.index.entries, e.id = m.node ∧ e.nameRange? = some m.nameRange ∧
      e.kind.isDeclaration = true := by
  rw [s.snapshot.declarations_eq] at h
  obtain ⟨e, he, hm⟩ := List.mem_filterMap.mp h
  obtain ⟨range, hrange, hm⟩ := Option.bind_eq_some_iff.mp hm
  refine ⟨e, he, ?_⟩
  cases hk : e.kind with
  | methodDecl name nameRange returnType isConstructor =>
    simp only [hk, Option.some.injEq] at hm
    subst hm
    refine ⟨rfl, ?_, rfl⟩
    rw [Entry.nameRange?, hk, hrange]
    cases nameRange <;> rfl
  | _ => simp [hk] at hm

namespace Standard

variable (hs : s.Standard)
include hs

private theorem exists_of_mem_editsTo {d : Definition}
    (hd : s.snapshot.definitionFor? d.node = some d) {newText : String} {uri : Uri}
    {edit : TextEdit} (h : (uri, edit) ∈ editsTo (s.referencesTo d true) newText) :
    uri = s.uri ∧ edit.newText = newText ∧ ∃ e ∈ s.snapshot.index.entries, s.resolve e = .ok d ∧
      e.nameRange? = some edit.range := by
  obtain ⟨r, hr, he⟩ := List.mem_map.mp h
  cases he
  obtain ⟨e₀, -, -, -, hresolve⟩ := exists_resolve_of_definitionFor? hs.chain hd
  have huri : d.uri = s.uri := (Snapshot.node_of_definitionFor? hd).2
  obtain ⟨huri', hnode⟩ := exists_of_mem_referencesTo hs.chain hs.uris hresolve huri hr
  exact ⟨huri', rfl, hnode⟩

variable {target : Definition} (htarget : s.snapshot.definitionFor? target.node = some target)
include htarget

/-- Each step of the plan edits the document at the identifier of a node that gets the text
as its name. -/
theorem exists_gets_of_mem_renamePlan {newName : String} {uri : Uri} {edit : TextEdit}
    (h : (uri, edit) ∈ s.renamePlan target newName) :
    uri = s.uri ∧ ∃ e ∈ s.snapshot.index.entries, s.Gets target newName e edit.newText ∧
      e.nameRange? = some edit.range := by
  have huri : target.uri = s.uri := (Snapshot.node_of_definitionFor? htarget).2
  rcases List.mem_append.mp h with h | h
  · obtain ⟨huri', htext, e, he, hresolve, hrange⟩ := hs.exists_of_mem_editsTo htarget h
    rw [htext]
    exact ⟨huri', e, he, .occurrence hresolve, hrange⟩
  · rcases List.mem_append.mp h with h | h
    · split at h
      · next hclass =>
        obtain ⟨r, hr, heq⟩ := List.mem_map.mp h
        obtain ⟨m, hm, rfl⟩ := List.mem_map.mp hr
        cases heq
        obtain ⟨e, he, hid, hrange, -⟩ := exists_entry_of_mem_methods (List.mem_filter.mp hm).1
        exact ⟨huri, e, he, .constructor hclass hm hid, hrange⟩
      · cases h
    · split at h
      · next hcond =>
        obtain ⟨hsynth, hfield⟩ := Bool.and_eq_true_iff.mp hcond
        obtain ⟨accessor, hof, h⟩ := List.mem_flatMap.mp h
        obtain ⟨d, hd, h⟩ := List.mem_flatMap.mp h
        have hdef := (of_mem_accessorsOf huri hd).1
        obtain ⟨huri', htext, e, he, hresolve, hrange⟩ := hs.exists_of_mem_editsTo hdef h
        rw [htext]
        exact ⟨huri', e, he, .accessor hsynth hfield hof hd hresolve, hrange⟩
      · cases h

/-- Each edit stands at the identifier of a node that gets the text of the edit as its name. -/
theorem exists_gets_of_mem_renameEdits {newName : String} {edit : TextEdit}
    (h : edit ∈ s.renameEdits target newName) :
    ∃ e ∈ s.snapshot.index.entries, s.Gets target newName e edit.newText ∧
      e.nameRange? = some edit.range :=
  (hs.exists_gets_of_mem_renamePlan htarget (EditBatch.mem_plan_of_mem_normalize h)).2

end Standard

/-! ### From nodes to edits -/

private theorem exists_mem_editsTo (hchain : s.chain = .standard) {d : Definition}
    (newText : String) {e : Entry} (he : e ∈ s.snapshot.index.entries)
    (hresolve : s.resolve e = .ok d) {range : Range} (hrange : e.nameRange? = some range) :
    ∃ edit, (s.uri, edit) ∈ editsTo (s.referencesTo d true) newText ∧
      edit.range.start = range.start := by
  have hkey := key_mem_referencesTo_of_resolve hchain he hresolve hrange
  obtain ⟨r, hr, heq⟩ := List.mem_map.mp hkey
  obtain ⟨huri, hstart⟩ := Prod.mk.inj heq
  refine ⟨⟨r.location.range, newText⟩, ?_, hstart⟩
  rw [← huri]
  exact List.mem_map.mpr ⟨r, hr, rfl⟩

/-- The edits to occurrences all write one text. -/
theorem newText_of_mem_editsTo {references : List Reference} {newText : String}
    {step : Uri × TextEdit} (h : step ∈ editsTo references newText) : step.2.newText = newText := by
  obtain ⟨r, -, rfl⟩ := List.mem_map.mp h
  rfl

/-- Where the identifier of a node that gets a name starts, there is an edit, first for the
new name itself. -/
theorem exists_mem_renameEdits_of_gets (hchain : s.chain = .standard) {target : Definition}
    (huri : target.uri = s.uri) {newName name : String} {e : Entry}
    (h : s.Gets target newName e name) (he : e ∈ s.snapshot.index.entries) {range : Range}
    (hrange : e.nameRange? = some range) :
    ∃ edit ∈ s.renameEdits target newName, edit.range.start = range.start ∧
      (name = newName → edit.newText = newName) := by
  unfold renameEdits renamePlan
  cases h with
  | occurrence hresolve =>
    obtain ⟨edit, hmem, hstart⟩ := exists_mem_editsTo hchain newName he hresolve hrange
    obtain ⟨first, hfirst, hstep, hstart'⟩ := EditBatch.exists_start_normalize hmem _
    exact ⟨first, hfirst, hstart'.trans hstart, fun _ => newText_of_mem_editsTo hstep⟩
  | @constructor m hclass hm hid =>
    obtain ⟨e', he', hid', hrange', -⟩ := exists_entry_of_mem_methods (List.mem_filter.mp hm).1
    rw [Index.eq_of_id_eq s.snapshot.distinct he he' (hid.trans hid'.symm), hrange'] at hrange
    cases hrange
    have hmem : (s.uri, ⟨m.nameRange, newName⟩) ∈ editsTo (s.referencesTo target true) newName ++
        editsTo (s.constructorNames target) newName := by
      apply List.mem_append_right
      rw [← huri]
      exact List.mem_map.mpr ⟨_, List.mem_map.mpr ⟨m, hm, rfl⟩, rfl⟩
    obtain ⟨first, hfirst, hstep, hstart⟩ := EditBatch.exists_start_normalize hmem _
    rw [List.append_assoc] at hfirst
    rw [if_pos hclass]
    refine ⟨first, hfirst, hstart, fun _ => ?_⟩
    exact (List.mem_append.mp hstep).elim newText_of_mem_editsTo newText_of_mem_editsTo
  | @accessor accessor d hsynth hfield hof hd hresolve =>
    obtain ⟨edit, hmem, hstart⟩ :=
      exists_mem_editsTo hchain (accessor.methodName newName) he hresolve hrange
    have hplan : (s.uri, edit) ∈ s.renamePlan target newName := by
      apply List.mem_append_right
      apply List.mem_append_right
      rw [hsynth, hfield]
      exact List.mem_flatMap.mpr ⟨accessor, hof, List.mem_flatMap.mpr ⟨d, hd, hmem⟩⟩
    obtain ⟨first, hfirst, -, hstart'⟩ := EditBatch.exists_start_normalize hplan []
    rw [List.append_nil] at hfirst
    refine ⟨first, hfirst, hstart'.trans hstart, fun hname => ?_⟩
    exact absurd hname (accessor.methodName_ne newName)

end Session

end GroovyIndex
