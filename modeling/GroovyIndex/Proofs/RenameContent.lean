import GroovyIndex.Proofs.RenameStart

/-!
# The content of a rename

`Renames` says which identifiers a rename replaces, and by what, in terms of resolution and of the
tree alone: the occurrences of the symbol, the constructors of a class, and the occurrences of
accessors. Each edit replaces one of these identifiers, and none of them is left out.
-/

namespace GroovyIndex

namespace Snapshot

variable {s : Snapshot}

/-- The constructors listed for a class are the constructors with a place in the source around which
the class is the nearest. -/
theorem exists_mem_constructorsOf_iff {e : Entry} (he : e ∈ s.index.entries) {owner : NodeId} :
    (∃ m ∈ s.declarations.constructorsOf owner, e.id = m.node) ↔
      ∃ name nameRange returnType around, e.kind = .methodDecl name nameRange returnType true ∧
        e.range.isSome = true ∧ s.index.enclosingClass? e.id = some around ∧ around.id = owner := by
  constructor
  · rintro ⟨m, hm, hid⟩
    obtain ⟨hlisted, hconstructs⟩ := List.mem_filter.mp hm
    obtain ⟨hconstructor, howner⟩ := Bool.and_eq_true_iff.mp hconstructs
    have hdef := definitionFor?_of_mem_methods hlisted
    rw [← hid, definitionFor?_of_mem he] at hdef
    obtain ⟨-, -, -, hsymbol, -, hplaced, howner'⟩ := definitionOf?_eq_some hdef
    simp only [MethodDecl.definition, hconstructor, if_true, SymbolKind.isMember,
      beq_iff_eq.mp howner] at hsymbol howner'
    obtain ⟨around, haround, hnode⟩ := Option.map_eq_some_iff.mp howner'.symm
    cases hk : e.kind with
    | methodDecl name nameRange returnType isConstructor =>
      cases isConstructor with
      | true => exact ⟨name, nameRange, returnType, around, rfl, hplaced, haround, hnode⟩
      | false => simp [hk, Kind.symbolKind?] at hsymbol
    | _ => simp [hk, Kind.symbolKind?] at hsymbol
  · rintro ⟨name, nameRange, returnType, around, hk, hplaced, haround, rfl⟩
    obtain ⟨range, hrange⟩ := Option.isSome_iff_exists.mp hplaced
    obtain ⟨m, hm⟩ : ∃ m, s.index.methodDecl? e = some m := by
      simp [Index.methodDecl?, hrange, hk]
    have hlisted : m ∈ s.declarations.methods := by
      rw [s.declarations_eq]
      exact List.mem_filterMap.mpr ⟨e, he, hm⟩
    simp only [Index.methodDecl?, hrange, hk, Option.bind_eq_bind, Option.bind_some,
      Option.some.injEq] at hm
    subst hm
    refine ⟨_, List.mem_filter.mpr ⟨hlisted, ?_⟩, rfl⟩
    simp [MethodDecl.constructs, Index.owner?, haround]

end Snapshot

namespace Session

variable {s : Session} {target : Definition} {newName : String}

/-- The rename of a symbol replaces the identifier of the node by the name. -/
inductive Renames (s : Session) (target : Definition) (newName : String) (e : Entry) : String → Prop
  /-- The node has the name of the symbol and resolves to it. -/
  | occurrence (hname : e.name? = some target.name) (h : s.resolve e = .ok target) :
      Renames s target newName e newName
  /-- The node is a constructor with a place in the source, and the class is the
  nearest around it. -/
  | constructor {name : String} {nameRange : Option Range} {returnType : Option String}
      {around : Entry} (hclass : target.kind = .classDecl)
      (hkind : e.kind = .methodDecl name nameRange returnType true)
      (hplaced : e.range.isSome = true)
      (haround : s.snapshot.index.enclosingClass? e.id = some around)
      (hnode : around.id = target.node) : Renames s target newName e newName
  /-- The node resolves to an accessor that the document declares beside the field or property. A
  constructor with the name of an accessor counts as one. -/
  | accessor {accessor : Accessor} {d : Definition} (hsynth : s.config.synthesizeAccessors = true)
      (hfield : target.kind = .field ∨ target.kind = .property)
      (hof : accessor ∈ Accessor.ofType target.typeName)
      (hmethod : d.kind = .method ∨ d.kind = .constructor)
      (hname : d.name = accessor.methodName target.name)
      (howner : d.uri = s.uri ∧ d.owner = target.owner) (h : s.resolve e = .ok d) :
      Renames s target newName e (accessor.methodName newName)

namespace Standard

variable (hs : s.Standard)
include hs

/-- A node has the name of what it resolves to, imports apart. -/
theorem name?_of_resolve {e : Entry} (he : e ∈ s.snapshot.index.entries) {d : Definition}
    (h : s.resolve e = .ok d) (hkind : d.kind ≠ .importDecl) : e.name? = some d.name := by
  rw [resolve, hs.chain] at h
  rcases Lookup.resolve_standard_eq_ok h with ⟨-, hdef⟩ | ⟨-, -, -, hname, -⟩
  · rw [Snapshot.definitionFor?_of_mem he] at hdef
    exact Snapshot.name?_of_definitionOf? hdef hkind
  · exact hname

/-- The accessors of a field are the methods and constructors of its class whose names are made of
its name. -/
theorem mem_accessorsOf_iff_of_resolve (huri : target.uri = s.uri) {accessor : Accessor} {e : Entry}
    {d : Definition} (h : s.resolve e = .ok d) :
    d ∈ s.accessorsOf target accessor ↔ (d.kind = .method ∨ d.kind = .constructor) ∧
      d.name = accessor.methodName target.name ∧ d.uri = s.uri ∧ d.owner = target.owner := by
  constructor
  · intro hd
    obtain ⟨hdef, hname, hmethod⟩ := of_mem_accessorsOf huri hd
    obtain ⟨m, -, -, howner, rfl⟩ := (mem_accessorsOf_iff huri).mp hd
    exact ⟨hmethod, hname, (Snapshot.node_of_definitionFor? hdef).2, howner⟩
  · rintro ⟨hmethod, hname, hdoc, howner⟩
    have hdef := hs.definitionFor?_of_resolve h hdoc
    obtain ⟨m, hm, rfl⟩ := Snapshot.exists_mem_methods_of_definitionFor? hdef hmethod
    exact (mem_accessorsOf_iff huri).mpr ⟨m, hm, hname, howner, rfl⟩

/-- The nodes that get a name are those whose identifiers are to be replaced. -/
theorem gets_iff_renames (huri : target.uri = s.uri) (hkind : target.kind ≠ .importDecl) {e : Entry}
    (he : e ∈ s.snapshot.index.entries) {name : String} :
    s.Gets target newName e name ↔ s.Renames target newName e name := by
  have hfield : target.kind.hasAccessors = true ↔
      (target.kind = .field ∨ target.kind = .property) := by
    cases target.kind <;> simp [SymbolKind.hasAccessors]
  constructor
  · intro h
    cases h with
    | occurrence h => exact .occurrence (hs.name?_of_resolve he h hkind) h
    | constructor hclass hm hid =>
      obtain ⟨_, _, _, _, hk, hplaced, haround, hnode⟩ :=
        (Snapshot.exists_mem_constructorsOf_iff he).mp ⟨_, hm, hid⟩
      exact .constructor hclass hk hplaced haround hnode
    | accessor hsynth hhas hof hd h =>
      obtain ⟨hmethod, hname, howner⟩ := (hs.mem_accessorsOf_iff_of_resolve huri h).mp hd
      exact .accessor hsynth (hfield.mp hhas) hof hmethod hname howner h
  · intro h
    cases h with
    | occurrence _ h => exact .occurrence h
    | constructor hclass hk hplaced haround hnode =>
      obtain ⟨m, hm, hid⟩ := (Snapshot.exists_mem_constructorsOf_iff he).mpr
        ⟨_, _, _, _, hk, hplaced, haround, hnode⟩
      exact .constructor hclass hm hid
    | accessor hsynth hhas hof hmethod hname howner h =>
      have hd := (hs.mem_accessorsOf_iff_of_resolve huri h).mpr ⟨hmethod, hname, howner⟩
      exact .accessor hsynth (hfield.mpr hhas) hof hd h

end Standard

/-- The edits of a rename are in order; each replaces an identifier by the name that it is to get,
and none is left out. -/
theorem rename_content (hs : s.Standard) {pos : Position} {newName : String} {batch : EditBatch}
    (hrename : s.rename pos newName = .ok batch) :
    ∃ start target edits, s.renameTarget pos = .ok (start, target) ∧
      batch.changes.entries = [(s.uri, edits)] ∧ edits ≠ [] ∧
      edits.Pairwise TextEdit.StartsBefore ∧
      (∀ edit ∈ edits, ∃ e ∈ s.snapshot.index.entries, e.nameRange? = some edit.range ∧
        s.Renames target newName e edit.newText) ∧
      ∀ e ∈ s.snapshot.index.entries, ∀ name range, s.Renames target newName e name →
        e.nameRange? = some range → ∃ edit ∈ edits, edit.range.start = range.start ∧
          (name = newName → edit.newText = newName) := by
  obtain ⟨start, target, htarget, rfl⟩ := rename_eq_ok hrename
  obtain ⟨hdeclared, hkind⟩ := hs.declared_of_renameTarget htarget
  have huri : target.uri = s.uri := (Snapshot.node_of_definitionFor? hdeclared).2
  have hne : s.renamePlan target newName ≠ [] := by
    simp [renamePlan, editsTo, referencesTo_ne_nil hs.chain htarget]
  obtain ⟨hentries, hsome⟩ := EditBatch.entries_normalize_of_forall
    (fun step hstep => (hs.exists_gets_of_mem_renamePlan hdeclared hstep).1) hne
  refine ⟨start, target, s.renameEdits target newName, htarget, hentries, hsome, ?_, ?_, ?_⟩
  · exact EditBatch.pairwise_editsFor_normalize _ _
  · intro edit hedit
    obtain ⟨e, he, hgets, hrange⟩ := hs.exists_gets_of_mem_renameEdits hdeclared hedit
    exact ⟨e, he, hrange, (hs.gets_iff_renames huri hkind he).mp hgets⟩
  · intro e he name range hrenames hrange
    have hgets := (hs.gets_iff_renames huri hkind he).mpr hrenames
    exact exists_mem_renameEdits_of_gets hs.chain huri hgets he hrange

/-- A boolean property, its accessor and a call to it; another document has a method of
the same name. -/
private def lamp : Session where
  snapshot := .ofParsed (.clean ⟨⟨"file:///lamp.groovy"⟩, 1⟩
    ⟨⟨0⟩, .moduleRoot, none,
      [⟨⟨1⟩, .classDecl "Lamp" (some (.ofCorners 0 6 0 10)) false, some (.ofCorners 0 0 4 1),
        [⟨⟨2⟩, .propertyDecl "lit" (some (.ofCorners 1 10 1 13)) (some "boolean"),
          some (.ofCorners 1 2 1 13), []⟩,
         ⟨⟨3⟩, .methodDecl "isLit" (some (.ofCorners 2 10 2 15)) (some "boolean") false,
          some (.ofCorners 2 2 2 25), [⟨⟨4⟩, .variableRef "lit", some (.ofCorners 2 20 2 23), []⟩]⟩,
         ⟨⟨5⟩, .methodDecl "show" (some (.ofCorners 3 6 3 10)) none false,
          some (.ofCorners 3 2 3 24),
          [⟨⟨6⟩, .call "isLit" (some (.ofCorners 3 15 3 20)) true, some (.ofCorners 3 15 3 22),
            []⟩]⟩]⟩]⟩) 0
  auxiliary := [.ofParsed (.clean ⟨⟨"file:///candle.groovy"⟩, 1⟩
    ⟨⟨0⟩, .moduleRoot, none,
      [⟨⟨1⟩, .methodDecl "isLit" (some (.ofCorners 0 4 0 9)) none false, some (.ofCorners 0 0 0 14),
        []⟩]⟩) 1]
  chain := .standard
  config := {}

private def lampEdits : List TextEdit :=
  [⟨.ofCorners 1 10 1 13, "on"⟩, ⟨.ofCorners 2 10 2 15, "isOn"⟩, ⟨.ofCorners 2 20 2 23, "on"⟩,
   ⟨.ofCorners 3 15 3 20, "isOn"⟩]

private def lampCall : Entry :=
  ⟨⟨6⟩, .call "isLit" (some (.ofCorners 3 15 3 20)) true, some (.ofCorners 3 15 3 22), [],
    [⟨5⟩, ⟨1⟩, ⟨0⟩]⟩

private def lampProperty : Definition :=
  ⟨⟨"file:///lamp.groovy"⟩, ⟨2⟩, "lit", .property, .ofCorners 1 2 1 13, .ofCorners 1 10 1 13,
    some "boolean", some ⟨1⟩⟩

private def lampAccessor : Definition :=
  ⟨⟨"file:///lamp.groovy"⟩, ⟨3⟩, "isLit", .method, .ofCorners 2 2 2 25, .ofCorners 2 10 2 15,
    some "boolean", some ⟨1⟩⟩

private theorem rename_lamp :
    lamp.rename ⟨1, 11⟩ "on" = .ok (EditBatch.empty.put ⟨"file:///lamp.groovy"⟩ lampEdits) := by
  rfl

private theorem renames_lampCall :
    lamp.Renames lampProperty "on" lampCall (Accessor.is.methodName "on") := by
  exact .accessor (d := lampAccessor) rfl (Or.inr rfl) (by decide) (Or.inl rfl) (by decide)
    ⟨rfl, rfl⟩ rfl

/-- With the property its accessor is renamed, also where it is called. -/
theorem rename_content_lamp :
    lamp.Standard ∧
    lamp.rename ⟨1, 11⟩ "on" = .ok (EditBatch.empty.put ⟨"file:///lamp.groovy"⟩ lampEdits) ∧
    lampEdits.Pairwise TextEdit.StartsBefore ∧
    (∃ e, e.nameRange? = some (.ofCorners 2 20 2 23) ∧ lamp.Renames lampProperty "on" e "on") ∧
    lamp.Renames lampProperty "on" lampCall (Accessor.is.methodName "on") ∧
    ∃ edit ∈ lampEdits, edit.range.start = ⟨3, 15⟩ := by
  have hs : lamp.Standard := ⟨rfl, by decide⟩
  obtain ⟨_, _, _, htarget, hentries, -, hsorted, hsound, hcomplete⟩ :=
    rename_content hs rename_lamp
  cases hentries
  cases htarget
  refine ⟨hs, rename_lamp, hsorted, ?_, renames_lampCall, ?_⟩
  · obtain ⟨e, -, hrange, hrenames⟩ := hsound ⟨.ofCorners 2 20 2 23, "on"⟩ (by decide)
    exact ⟨e, hrange, hrenames⟩
  · obtain ⟨edit, hedit, hstart, -⟩ := hcomplete lampCall (by decide) _ _ renames_lampCall rfl
    exact ⟨edit, hedit, hstart⟩

end Session

end GroovyIndex
