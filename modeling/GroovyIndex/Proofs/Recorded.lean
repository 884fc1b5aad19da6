import GroovyIndex.Proofs.Scoping

/-!
# Which nodes have a record

Records and definitions are read off the nodes by different walks. Every record is of a node with
a definition that says the same (`Described`), and every class, method, field and property with a
place has its one record (`Recorded`). So what is looked up in the records is always found
(`HitsFound`).
-/

namespace GroovyIndex

namespace Kind

/-- The node is a method or constructor. -/
def isMethod : Kind → Bool
  | methodDecl .. => true
  | _ => false

/-- The node is a field or property. -/
def isField : Kind → Bool
  | fieldDecl .. | propertyDecl .. => true
  | _ => false

end Kind

/-! ### Records by node -/

namespace Index

/-- The nodes with a place that meet a condition, in pre-order. -/
def placedWhere (idx : Index) (p : Entry → Bool) : List Entry :=
  idx.entries.filter fun e => e.range.isSome && p e

/-- The records are those of the nodes with a place that meet a condition: in pre-order, and
one of each. -/
structure Lists {α : Type} (idx : Index) (node : α → NodeId) (records : List α)
    (p : Entry → Bool) : Prop where
  nodes : records.map node = (idx.placedWhere p).map Entry.id
  once : ∀ e ∈ idx.entries, e.range.isSome = true → p e = true →
    records.countP (node · == e.id) = 1

/-- A walk makes a record of each node with a place that is of some kinds, and of no other node. -/
structure Makes {α : Type} (record : Entry → Option α) (node : α → NodeId)
    (kinds : Entry → Bool) : Prop where
  isSome : ∀ e, (record e).isSome = (e.range.isSome && kinds e)
  node : ∀ e r, record e = some r → node r = e.id

section Makes

variable {idx : Index} {α : Type} {record : Entry → Option α} {node : α → NodeId}
  {kinds p : Entry → Bool} {q : α → Bool}

/-- A walk that describes nodes with a place makes records of the kinds that it describes. -/
theorem Makes.of_describe {describe : Entry → Range → Option α}
    (hsome : ∀ e range, (describe e range).isSome = kinds e)
    (hnode : ∀ (e : Entry) r, e.range.bind (describe e) = some r → node r = e.id) :
    Makes (fun e => e.range.bind (describe e)) node kinds where
  isSome e := by
    cases e.range with
    | none => rfl
    | some range => exact hsome e range
  node := hnode

/-- The records picked by what they say of their nodes are those of the nodes so picked,
one by one. -/
theorem Makes.map_some_filter (h : Makes record node kinds)
    (hpick : ∀ e r, record e = some r → q r = p e) (entries : List Entry) :
    ((entries.filterMap record).filter q).map some =
      (entries.filter fun e => e.range.isSome && (kinds e && p e)).map record := by
  induction entries with
  | nil => rfl
  | cons e rest ih =>
    rw [List.filterMap_cons, List.filter_cons, ← Bool.and_assoc, ← h.isSome]
    cases hr : record e with
    | none => exact ih
    | some r =>
      rw [List.filter_cons, hpick e r hr, Option.isSome_some, Bool.true_and]
      cases p e with
      | false => exact ih
      | true =>
        simp only [↓reduceIte, List.map_cons]
        rw [hr, ih]

/-- The nodes of the records that are picked. -/
private theorem Makes.map_filter (h : Makes record node kinds)
    (hpick : ∀ e r, record e = some r → q r = p e) (entries : List Entry) :
    ((entries.filterMap record).filter q).map node =
      (entries.filter fun e => e.range.isSome && (kinds e && p e)).map Entry.id := by
  have hnodes := congrArg (List.map (Option.map node)) (h.map_some_filter hpick entries)
  rw [List.map_map, List.map_map] at hnodes
  apply List.map_injective_iff.mpr (Option.some_injective NodeId)
  rw [List.map_map, List.map_map]
  refine hnodes.trans (List.map_congr_left ?_)
  intro e he
  obtain ⟨hsome, hrest⟩ := Bool.and_eq_true_iff.mp (List.mem_filter.mp he).2
  have hrecord : (record e).isSome = true := by
    rw [h.isSome, hsome, (Bool.and_eq_true_iff.mp hrest).1]
    rfl
  obtain ⟨r, hr⟩ := Option.isSome_iff_exists.mp hrecord
  simp [hr, h.node e r hr]

theorem Makes.lists (h : Makes record node kinds) (hd : idx.Distinct)
    (hpick : ∀ e r, record e = some r → q r = p e) :
    idx.Lists node ((idx.entries.filterMap record).filter q) fun e => kinds e && p e := by
  have hnodes := h.map_filter hpick idx.entries
  refine ⟨hnodes, ?_⟩
  intro e he hsome hp
  have hnodup : ((idx.placedWhere fun e => kinds e && p e).map Entry.id).Nodup :=
    hd.sublist (List.filter_sublist.map _)
  have hmem : e.id ∈ (idx.placedWhere fun e => kinds e && p e).map Entry.id :=
    List.mem_map_of_mem (List.mem_filter.mpr ⟨he, Bool.and_eq_true_iff.mpr ⟨hsome, hp⟩⟩)
  calc ((idx.entries.filterMap record).filter q).countP (node · == e.id)
    _ = (((idx.entries.filterMap record).filter q).map node).count e.id := by
        rw [List.count, List.countP_map]
        rfl
    _ = 1 := by
        rw [hnodes]
        exact List.count_eq_one_of_mem hnodup hmem

/-- All records of a walk. -/
theorem Makes.lists_all (h : Makes record node kinds) (hd : idx.Distinct) :
    idx.Lists node (idx.entries.filterMap record) kinds := by
  have hall := h.lists (q := fun _ => true) (p := fun _ => true) hd fun _ _ _ => rfl
  simpa only [List.filter_true, Bool.and_true] using hall

end Makes

/-! ### What records say of their nodes -/

variable {idx : Index}

theorem name?_of_classDecl? {e : Entry} {c : ClassDecl} (h : e.classDecl? = some c) :
    c.node = e.id ∧ e.name? = some c.name := by
  obtain ⟨range, -, hc⟩ := Option.bind_eq_some_iff.mp h
  rw [Entry.name?]
  cases hk : e.kind <;> simp [hk] at hc
  rw [← hc]
  exact ⟨rfl, rfl⟩

theorem name?_of_methodDecl? {e : Entry} {m : MethodDecl} (h : idx.methodDecl? e = some m) :
    m.node = e.id ∧ e.name? = some m.name ∧ m.owner = idx.owner? e.id := by
  obtain ⟨range, -, hm⟩ := Option.bind_eq_some_iff.mp h
  rw [Entry.name?]
  cases hk : e.kind <;> simp [hk] at hm
  rw [← hm]
  exact ⟨rfl, rfl, rfl⟩

theorem name?_of_fieldDecl? {e : Entry} {f : FieldDecl} (h : idx.fieldDecl? e = some f) :
    e.name? = some f.name ∧ f.owner = idx.owner? e.id := by
  obtain ⟨range, -, hf⟩ := Option.bind_eq_some_iff.mp h
  rw [Entry.name?]
  cases hk : e.kind <;> simp [hk] at hf
  all_goals
    rw [← hf]
    exact ⟨rfl, rfl⟩

theorem makes_classDecl? : Makes Entry.classDecl? ClassDecl.node (·.kind.isClass) :=
  .of_describe (fun e _ => by cases e.kind <;> rfl) fun _ _ h => (name?_of_classDecl? h).1

theorem makes_methodDecl? (idx : Index) :
    Makes idx.methodDecl? MethodDecl.node (·.kind.isMethod) :=
  .of_describe (fun e _ => by cases e.kind <;> rfl) fun _ _ h => (name?_of_methodDecl? h).1

theorem makes_fieldDecl? (idx : Index) : Makes idx.fieldDecl? FieldDecl.node (·.kind.isField) :=
  .of_describe (fun e _ => by cases e.kind <;> rfl) fun _ _ => node_of_fieldDecl?

end Index

/-! ### Records and nodes agree -/

namespace Snapshot

/-- Every record is of a node with a definition, and the definition says what the record says. The
owner of a member is the nearest class around it. -/
structure Described (s : Snapshot) : Prop where
  classes : ∀ c ∈ s.declarations.classes, s.definitionFor? c.node = some (c.definition s.uri)
  methods : ∀ m ∈ s.declarations.methods, s.definitionFor? m.node = some (m.definition s.uri) ∧
    m.owner = (s.index.enclosingClass? m.node).map Entry.id
  fields : ∀ f ∈ s.declarations.fields, s.definitionFor? f.node = some (f.definition s.uri) ∧
    f.owner = (s.index.enclosingClass? f.node).map Entry.id
  vars : ∀ v ∈ s.declarations.vars,
    ∃ range, s.definitionFor? v.node = some (v.definition s.uri range)
  imports : ∀ i ∈ s.declarations.imports, s.definitionFor? i.node = some (i.definition s.uri)
  activeImports : s.declarations.activeImports ⊆ s.declarations.imports

/-- Every class, method, field and property with a place has its one record, and look-ups list the
nodes asked for. -/
structure Recorded (s : Snapshot) : Prop where
  classes : s.index.Lists ClassDecl.node s.declarations.classes (·.kind.isClass)
  methods : s.index.Lists MethodDecl.node s.declarations.methods (·.kind.isMethod)
  fields : s.index.Lists FieldDecl.node s.declarations.fields (·.kind.isField)
  classesNamed : ∀ name, s.index.Lists ClassDecl.node (s.declarations.classesNamed name)
    fun e => e.kind.isClass && e.name? == some name
  methodsNamed : ∀ name, s.index.Lists MethodDecl.node (s.declarations.methodsNamed name)
    fun e => e.kind.isMethod && e.name? == some name
  fieldsOf : ∀ owner, s.index.Lists FieldDecl.node (s.declarations.fieldsOf owner)
    fun e => e.kind.isField && s.index.owner? e.id == owner

theorem described (s : Snapshot) : s.Described where
  classes _ hc := definitionFor?_of_mem_classes hc
  methods m hm := by
    refine ⟨definitionFor?_of_mem_methods hm, ?_⟩
    rw [s.declarations_eq] at hm
    obtain ⟨e, -, hm⟩ := List.mem_filterMap.mp hm
    obtain ⟨hnode, -, howner⟩ := Index.name?_of_methodDecl? hm
    rw [hnode]
    exact howner
  fields f hf := by
    refine ⟨definitionFor?_of_mem_fields hf, ?_⟩
    rw [s.declarations_eq] at hf
    obtain ⟨e, -, hf⟩ := List.mem_filterMap.mp hf
    rw [Index.node_of_fieldDecl? hf]
    exact (Index.name?_of_fieldDecl? hf).2
  vars _ hv := definitionFor?_of_mem_vars hv
  imports _ hi := definitionFor?_of_mem_imports hi
  activeImports i hi := by
    rcases List.mem_append.mp hi with hi | hi
    · exact (List.mem_filter.mp (mem_of_mem_firstPerKey hi)).1
    · exact (List.mem_filter.mp hi).1

theorem recorded (s : Snapshot) : s.Recorded := by
  have hd := s.distinct
  constructor
  all_goals rw [s.declarations_eq]
  · exact Index.makes_classDecl?.lists_all hd
  · exact s.index.makes_methodDecl?.lists_all hd
  · exact s.index.makes_fieldDecl?.lists_all hd
  · intro name
    apply Index.makes_classDecl?.lists hd
    intro e c hc
    simp [(Index.name?_of_classDecl? hc).2]
  · intro name
    apply s.index.makes_methodDecl?.lists hd
    intro e m hm
    simp [(Index.name?_of_methodDecl? hm).2.1]
  · intro owner
    apply s.index.makes_fieldDecl?.lists hd
    intro e f hf
    rw [(Index.name?_of_fieldDecl? hf).2]

/-- The definition that the records of a document give for a call or the name of a class. -/
def recordFor? (s : Snapshot) : Kind → Option Definition
  | .call name _ _ =>
    (s.declarations.methodsNamed name).head?.map fun method => method.definition s.uri
  | .classRef name | .constructorCall name _ =>
    (s.declarations.classesNamed name).head?.map fun decl => decl.definition s.uri
  | _ => none

variable {s : Snapshot}

theorem methodDefinition?_eq (s : Snapshot) (name : String) :
    s.methodDefinition? name =
      (s.declarations.methodsNamed name).head?.map fun method => method.definition s.uri := by
  rw [methodDefinition?]
  cases h : (s.declarations.methodsNamed name).head? with
  | none => rfl
  | some m => exact definitionFor?_of_mem_methods (List.mem_filter.mp (List.mem_of_head? h)).1

theorem classDefinition?_eq (s : Snapshot) (name : String) :
    s.classDefinition? name =
      (s.declarations.classesNamed name).head?.map fun decl => decl.definition s.uri := by
  rw [classDefinition?]
  cases h : (s.declarations.classesNamed name).head? with
  | none => rfl
  | some c => exact definitionFor?_of_mem_classes (List.mem_filter.mp (List.mem_of_head? h)).1

/-- A node that declares has a definition exactly if it has a place. -/
theorem isSome_definitionFor?_of_declares {e : Entry} (he : e ∈ s.index.entries)
    (h : s.index.declares e = true) : (s.definitionFor? e.id).isSome = e.range.isSome := by
  obtain ⟨declarer, hdeclarer⟩ := Option.isSome_iff_exists.mp h
  have hsymbol : ∃ kind name,
      e.kind.symbolKind? = some kind ∧ e.kind.declaredName? = some name := by
    cases hdecl : e.kind.isDeclaration with
    | true =>
      cases hk : e.kind <;> simp [hk, Kind.isDeclaration] at hdecl
      all_goals exact ⟨_, _, rfl, rfl⟩
    | false =>
      have hvar := Index.isVariableRef_of_declares s.distinct he h hdecl
      cases hk : e.kind <;> simp [hk, Kind.isVariableRef] at hvar
      exact ⟨_, _, rfl, rfl⟩
  obtain ⟨kind, name, hkind, hname⟩ := hsymbol
  cases hr : e.range with
  | none => simp [definitionFor?_of_mem he, definitionOf?, hr]
  | some range =>
    rw [definitionFor?_of_declarer he hr hdeclarer hkind hname]
    rfl

end Snapshot

namespace Lookup

/-- The auxiliary documents are asked for the node: it is a call or the name of a class that its
document does not declare. -/
def asksElsewhere (l : Lookup) : Bool :=
  !l.auxiliary.isEmpty &&
    match l.entry.kind with
    | .call name _ implicitThis =>
      !l.snapshot.ownsCall l.entry.id name implicitThis l.position
    | .classRef name | .constructorCall name _ => !l.snapshot.ownsClass name
    | _ => false

/-- What is looked up in the records is found: within the document unless nothing is hit or the node
itself declares and has no place, and in auxiliary documents by the first record. -/
structure HitsFound (l : Lookup) : Prop where
  within : ∀ id, l.lexicalTarget? = some (some id) →
    (l.snapshot.index.declares l.entry = true → l.entry.range.isSome = true) →
    ∃ d, l.snapshot.definitionFor? id = some d ∧ l.lexical = .found d
  missed : ∀ error, l.lexical = .notFound error → l.lexicalTarget? = some none ∨
    l.snapshot.index.declares l.entry = true ∧ l.entry.range = none
  elsewhere : l.elsewhere =
    if l.asksElsewhere then .ofOption (l.auxiliary.findSome? (·.recordFor? l.entry.kind))
    else .notApplicable

/-- Only the records of the auxiliary documents decide what is found there. -/
theorem elsewhere_eq (l : Lookup) :
    l.elsewhere =
      if l.asksElsewhere then .ofOption (l.auxiliary.findSome? (·.recordFor? l.entry.kind))
      else .notApplicable := by
  rw [Lookup.elsewhere, asksElsewhere]
  cases l.auxiliary.isEmpty with
  | true => rfl
  | false =>
    cases hk : l.entry.kind with
    | call name range implicitThis =>
      simp only [Snapshot.methodDefinition?_eq, Snapshot.recordFor?]
      by_cases howns : l.snapshot.ownsCall l.entry.id name implicitThis l.position <;> simp [howns]
    | classRef name | constructorCall name range =>
      simp only [Snapshot.classDefinition?_eq, Snapshot.recordFor?]
      by_cases howns : l.snapshot.ownsClass name <;> simp [howns]
    | _ => rfl

/-- The definition at a node that is hit is found; a node that declares needs a place. -/
theorem lexical_of_lexicalTarget? {l : Lookup} (he : l.entry ∈ l.snapshot.index.entries)
    {id : NodeId} (htarget : l.lexicalTarget? = some (some id))
    (hplaced : l.snapshot.index.declares l.entry = true → l.entry.range.isSome = true) :
    ∃ d, l.snapshot.definitionFor? id = some d ∧ l.lexical = .found d := by
  have hdef : ∃ d, l.snapshot.definitionFor? id = some d := by
    rcases lexicalTarget?_eq_some htarget with ⟨hdecl, rfl⟩ | ⟨-, d, hdef, -⟩
    · apply Option.isSome_iff_exists.mp
      rw [Snapshot.isSome_definitionFor?_of_declares he hdecl]
      exact hplaced hdecl
    · exact ⟨d, hdef⟩
  obtain ⟨d, hdef⟩ := hdef
  refine ⟨d, hdef, ?_⟩
  rw [lexical, htarget]
  simp only [Option.bind_some, hdef]
  rfl

theorem hitsFound {l : Lookup} (he : l.entry ∈ l.snapshot.index.entries) : l.HitsFound := by
  refine ⟨fun id => lexical_of_lexicalTarget? he, ?_, l.elsewhere_eq⟩
  intro error hmissed
  cases htarget : l.lexicalTarget? with
  | none =>
    rw [lexical, htarget] at hmissed
    cases hmissed
  | some target =>
    cases target with
    | none => exact Or.inl rfl
    | some id =>
      right
      by_contra hnot
      have hplaced (hdecl : l.snapshot.index.declares l.entry = true) :
          l.entry.range.isSome = true := by
        by_contra hnone
        exact hnot ⟨hdecl, by simpa using hnone⟩
      obtain ⟨d, -, hlexical⟩ := lexical_of_lexicalTarget? he htarget hplaced
      rw [hlexical] at hmissed
      cases hmissed

end Lookup

namespace Snapshot

/-- Records and definitions agree in every document, and what is looked up in the
records is found. -/
theorem records_agree (s : Snapshot) :
    s.Described ∧ s.Recorded ∧
      ∀ auxiliary, ∀ e ∈ s.index.entries, Lookup.HitsFound ⟨s, auxiliary, e⟩ :=
  ⟨s.described, s.recorded, fun _ _ he => Lookup.hitsFound he⟩

/-- A class with two members `size`, one without a place, and a method with a variable: the first
child of its statement repeats an id and is dropped. -/
private def shelf : Snapshot :=
  .ofParsed (.clean ⟨⟨"file:///shelf.groovy"⟩, 1⟩
    ⟨⟨0⟩, .moduleRoot, none,
      [⟨⟨1⟩, .importDecl "books" none false true, some (.ofCorners 0 0 0 14), []⟩,
      ⟨⟨2⟩, .classDecl "Shelf" none false, some (.ofCorners 1 0 5 1),
        [⟨⟨3⟩, .fieldDecl "size" none none, none, []⟩,
        ⟨⟨4⟩, .propertyDecl "size" none (some "int"), some (.ofCorners 2 2 2 10), []⟩,
        ⟨⟨5⟩, .methodDecl "fill" none none false, some (.ofCorners 3 2 4 3),
          [⟨⟨6⟩, .declaration (some "int"), some (.ofCorners 3 14 3 23),
            [⟨⟨4⟩, .variableRef "lost", some (.ofCorners 3 14 3 17), []⟩,
            ⟨⟨7⟩, .variableRef "row", some (.ofCorners 3 18 3 21), []⟩]⟩,
          ⟨⟨8⟩, .variableRef "row", some (.ofCorners 4 0 4 3), []⟩]⟩]⟩]⟩) 0

private def rowUse : Entry :=
  ⟨⟨8⟩, .variableRef "row", some (.ofCorners 4 0 4 3), [], [⟨5⟩, ⟨2⟩, ⟨0⟩]⟩

/-- Only the member with a place is recorded, the import has its definition, and the variable is the
child that is declared. -/
theorem records_agree_shelf :
    (shelf.declarations.fieldsOf (some ⟨2⟩)).map FieldDecl.node = [⟨4⟩] ∧
    (∀ i ∈ shelf.declarations.imports,
      shelf.definitionFor? i.node = some (i.definition shelf.uri)) ∧
    shelf.declarations.imports.map ImportDecl.node = [⟨1⟩] ∧
    ∃ d, shelf.definitionFor? ⟨7⟩ = some d ∧ Lookup.lexical ⟨shelf, [], rowUse⟩ = .found d := by
  obtain ⟨hdescribed, hrecorded, hhits⟩ := records_agree shelf
  refine ⟨(hrecorded.fieldsOf (some ⟨2⟩)).nodes.trans (by decide), hdescribed.imports,
    by decide, ?_⟩
  exact (hhits [] rowUse (by decide)).within ⟨7⟩ (by decide) (by decide)

end Snapshot

end GroovyIndex
