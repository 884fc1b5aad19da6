import GroovyIndex.Proofs.Records
import GroovyIndex.Resolution.Auxiliary

/-!
# What a node resolves to

The standard chain asks the auxiliary documents first and then the document by itself. Whatever
answers, the definition is of a declaration of the name that the node spells out, of a kind that
such a node can refer to; only the name of a declaration refers to itself.
-/

namespace GroovyIndex

/-! ### The standard chain -/

namespace Lookup

/-- What the document by itself says of a node. -/
def alone (l : Lookup) : Except QueryError Definition :=
  match l.lexicalTarget? with
  | some target =>
    match target.bind l.snapshot.definitionFor? with
    | some d => .ok d
    | none => .error .nodeNotFound
  | none => .error .unsupportedNodeKind

/-- A document by itself resolves a node exactly to the definition at the node's target. -/
theorem alone_eq_ok_iff {l : Lookup} {d : Definition} :
    l.alone = .ok d ↔
      ∃ id, l.lexicalTarget? = some (some id) ∧ l.snapshot.definitionFor? id = some d := by
  unfold alone
  constructor
  · intro h
    split at h
    · next target ht =>
      split at h
      · next found hf =>
        cases h
        obtain ⟨id, rfl, hd⟩ := Option.bind_eq_some_iff.mp hf
        exact ⟨id, ht, hd⟩
      · cases h
    · cases h
  · rintro ⟨id, ht, hd⟩
    simp [ht, hd]

private theorem run_lexical (l : Lookup) (pending : Option QueryError)
    (h : pending = none ∨ l.lexicalTarget?.isSome = true) :
    Chain.run l pending [.lexical] = l.alone := by
  cases ht : l.lexicalTarget? with
  | none =>
    have hp : pending = none := by simpa [ht] using h
    subst hp
    simp [Chain.run, Strategy.lexical, lexical, alone, ht]
  | some target =>
    cases hd : target.bind l.snapshot.definitionFor? <;>
      simp [Chain.run, Strategy.lexical, lexical, alone, ht, hd, Outcome.ofOption]

/-- What the auxiliary documents are asked for can also be looked up in the document itself. -/
private theorem isSome_lexicalTarget? {l : Lookup} {error : QueryError}
    (h : l.elsewhere = .notFound error) : l.lexicalTarget?.isSome = true := by
  unfold elsewhere at h
  unfold lexicalTarget?
  split
  · rfl
  · cases hk : l.entry.kind <;> simp [hk] at h ⊢

/-- The standard chain takes what the auxiliary documents find, else what the document
by itself says. -/
theorem resolve_standard (l : Lookup) :
    Chain.standard.resolve l =
      match l.elsewhere with
      | .found d => .ok d
      | _ => l.alone := by
  rw [Chain.resolve, Chain.standard, Chain.run]
  simp only [Strategy.auxiliary]
  cases h : l.elsewhere with
  | found d => rfl
  | notApplicable => exact run_lexical l none (Or.inl rfl)
  | notFound error =>
    simp only [Bool.false_eq_true, ↓reduceIte]
    exact run_lexical l (some error) (Or.inr (isSome_lexicalTarget? h))

/-- Without auxiliary documents the document by itself decides. -/
theorem resolve_standard_alone {l : Lookup} (h : l.auxiliary = []) :
    Chain.standard.resolve l = l.alone := by
  rw [resolve_standard, elsewhere, h]
  rfl

/-- The node of a definition resolves to it; no auxiliary document is asked. -/
theorem resolve_standard_of_definitionFor? {l : Lookup} {d : Definition}
    (he : l.entry ∈ l.snapshot.index.entries)
    (h : l.snapshot.definitionFor? l.entry.id = some d) : Chain.standard.resolve l = .ok d := by
  have hdef := h
  rw [Snapshot.definitionFor?_of_mem he] at hdef
  obtain ⟨hdecl, -, -, hkind, -⟩ := Snapshot.definitionOf?_eq_some hdef
  have helsewhere : l.elsewhere = .notApplicable := by
    unfold elsewhere
    split
    · rfl
    · cases hk : l.entry.kind <;> simp [hk, Kind.symbolKind?] at hkind ⊢
  rw [resolve_standard, helsewhere]
  apply alone_eq_ok_iff.mpr
  exact ⟨l.entry.id, by simp [lexicalTarget?, hdecl], h⟩

end Lookup

/-! ### Which declarations a node can refer to -/

namespace Kind

/-- The kinds of symbols that a node of the kind can refer to without declaring anything. -/
def mayReferTo : Kind → SymbolKind → Bool
  | variableRef _, .localVar | variableRef _, .parameter | variableRef _, .field
  | variableRef _, .property => true
  | call .., .method | call .., .constructor | call .., .localVar | call .., .parameter
  | call .., .field | call .., .property => true
  | propertyRef .., .field | propertyRef .., .property => true
  | classRef _, .classDecl | classRef _, .importDecl => true
  | constructorCall .., .classDecl | constructorCall .., .importDecl => true
  | _, _ => false

end Kind

namespace Declarations

variable {d : Declarations}

/-- A variable that is found is listed, and has the name. -/
theorem mem_of_variableIn? {scope : NodeId} {name : String} {pos : Position} {v : VariableDecl}
    (h : d.variableIn? scope name pos = some v) : v ∈ d.vars ∧ v.name = name := by
  have hmem := List.mem_of_getLast? h
  obtain ⟨hv, hcond⟩ := List.mem_filter.mp hmem
  simp only [Bool.and_eq_true, beq_iff_eq] at hcond
  exact ⟨hv, hcond.1.1⟩

/-- A field that is found is listed, and has the name. -/
theorem mem_of_fieldOf? {owner : Option NodeId} {name : String} {f : FieldDecl}
    (h : d.fieldOf? owner name = some f) : f ∈ d.fields ∧ f.name = name := by
  have hname := List.find?_some h
  have hmem := (List.mem_filter.mp (List.mem_of_find?_eq_some h)).1
  exact ⟨hmem, by simpa using hname⟩

/-- A field of a name is listed, and has the name. -/
theorem mem_of_mem_fieldsNamed {name : String} {f : FieldDecl} (h : f ∈ d.fieldsNamed name) :
    f ∈ d.fields ∧ f.name = name := by
  obtain ⟨hmem, hname⟩ := List.mem_filter.mp h
  exact ⟨mem_groupedBy.mp hmem, by simpa using hname⟩

end Declarations

/-- Only members of the list are the first of their key. -/
theorem mem_of_mem_firstPerKey {α β : Type} [DecidableEq β] {key : α → β} {xs : List α} {x : α}
    (h : x ∈ firstPerKey key xs) : x ∈ xs := by
  induction xs with
  | nil => exact h
  | cons y rest ih =>
    rcases List.mem_cons.mp h with rfl | h
    · exact List.mem_cons_self
    · exact List.mem_cons_of_mem _ (ih (List.mem_filter.mp h).1)

namespace Snapshot

variable {s : Snapshot}

/-- What a name of a variable refers to is a variable or field of that name. -/
theorem definition_of_variableFor? {node id : NodeId} {name : String} {pos : Position}
    (h : s.variableFor? node name pos = some id) :
    ∃ d, s.definitionFor? id = some d ∧ d.name = name ∧
      (Kind.variableRef name).mayReferTo d.kind = true := by
  obtain ⟨scope, -, hscope⟩ := List.exists_of_findSome?_eq_some h
  rcases Option.or_eq_some_iff.mp hscope with hv | ⟨-, hf⟩
  · obtain ⟨v, hin, rfl⟩ := Option.map_eq_some_iff.mp hv
    obtain ⟨hmem, hname⟩ := Declarations.mem_of_variableIn? hin
    obtain ⟨range, hdef⟩ := definitionFor?_of_mem_vars hmem
    refine ⟨_, hdef, hname, ?_⟩
    cases hk : v.kind <;>
      simp [VariableDecl.definition, hk, VariableKind.symbolKind, Kind.mayReferTo]
  · obtain ⟨owner, -, howner⟩ := Option.bind_eq_some_iff.mp hf
    obtain ⟨f, hof, rfl⟩ := Option.map_eq_some_iff.mp howner
    obtain ⟨hmem, hname⟩ := Declarations.mem_of_fieldOf? hof
    refine ⟨_, definitionFor?_of_mem_fields hmem, hname, ?_⟩
    cases hp : f.isProperty <;> simp [FieldDecl.definition, hp, Kind.mayReferTo]

/-- What a call refers to is a method, variable or field of that name. -/
theorem definition_of_calleeFor? {node id : NodeId} {name : String} {implicitThis : Bool}
    {pos : Position} (h : s.calleeFor? node name implicitThis pos = some id)
    (range : Option Range) :
    ∃ d, s.definitionFor? id = some d ∧ d.name = name ∧
      (Kind.call name range implicitThis).mayReferTo d.kind = true := by
  unfold calleeFor? at h
  split at h
  · next m rest hm =>
    cases h
    have hmem : m ∈ s.declarations.methodsNamed name := by rw [hm]; exact List.mem_cons_self
    obtain ⟨hmem, hname⟩ := List.mem_filter.mp hmem
    refine ⟨_, definitionFor?_of_mem_methods hmem, beq_iff_eq.mp hname, ?_⟩
    cases hc : m.isConstructor <;> simp [MethodDecl.definition, hc, Kind.mayReferTo]
  · split at h
    · obtain ⟨d, hdef, hname, hkind⟩ := definition_of_variableFor? h
      refine ⟨d, hdef, hname, ?_⟩
      cases hk : d.kind <;> simp_all [Kind.mayReferTo]
    · cases h

/-- What a property refers to is a field or property of that name. -/
theorem definition_of_propertyFor? {node id : NodeId} {name : String}
    (h : s.propertyFor? node name = some id) (range : Option Range) :
    ∃ d, s.definitionFor? id = some d ∧ d.name = name ∧
      (Kind.propertyRef name range).mayReferTo d.kind = true := by
  obtain ⟨f, hf, rfl⟩ := Option.map_eq_some_iff.mp h
  have hlisted : f ∈ s.declarations.fields ∧ f.name = name := by
    rcases Option.or_eq_some_iff.mp hf with hf | ⟨-, hf⟩
    · exact Declarations.mem_of_fieldOf? hf
    · exact Declarations.mem_of_mem_fieldsNamed (List.mem_of_head? hf)
  refine ⟨_, definitionFor?_of_mem_fields hlisted.1, hlisted.2, ?_⟩
  cases hp : f.isProperty <;> simp [FieldDecl.definition, hp, Kind.mayReferTo]

/-- What the name of a class refers to is a class or an import of that name. -/
theorem definition_of_classFor? {id : NodeId} {name : String} (h : s.classFor? name = some id) :
    ∃ d, s.definitionFor? id = some d ∧ d.name = name ∧
      (Kind.classRef name).mayReferTo d.kind = true := by
  unfold classFor? at h
  split at h
  · next c rest hc =>
    cases h
    have hmem : c ∈ s.declarations.classesNamed name := by rw [hc]; exact List.mem_cons_self
    obtain ⟨hmem, hname⟩ := List.mem_filter.mp hmem
    exact ⟨_, definitionFor?_of_mem_classes hmem, beq_iff_eq.mp hname, rfl⟩
  · obtain ⟨i, hi, rfl⟩ := Option.map_eq_some_iff.mp h
    have hname := List.find?_some hi
    have hmem := (List.mem_filter.mp (mem_of_mem_firstPerKey (List.mem_of_find?_eq_some hi))).1
    exact ⟨_, definitionFor?_of_mem_imports hmem, beq_iff_eq.mp hname, rfl⟩

/-- The definition of the first method of a name is that of a listed method. -/
theorem methodDefinition?_eq_some {name : String} {d : Definition}
    (h : s.methodDefinition? name = some d) :
    ∃ m ∈ s.declarations.methods, m.name = name ∧ d = m.definition s.uri := by
  obtain ⟨m, hm, hdef⟩ := Option.bind_eq_some_iff.mp h
  obtain ⟨hmem, hname⟩ := List.mem_filter.mp (List.mem_of_head? hm)
  rw [definitionFor?_of_mem_methods hmem] at hdef
  exact ⟨m, hmem, beq_iff_eq.mp hname, (Option.some.inj hdef).symm⟩

/-- The definition of the first class of a name is that of a listed class. -/
theorem classDefinition?_eq_some {name : String} {d : Definition}
    (h : s.classDefinition? name = some d) :
    ∃ c ∈ s.declarations.classes, c.name = name ∧ d = c.definition s.uri := by
  obtain ⟨c, hc, hdef⟩ := Option.bind_eq_some_iff.mp h
  obtain ⟨hmem, hname⟩ := List.mem_filter.mp (List.mem_of_head? hc)
  rw [definitionFor?_of_mem_classes hmem] at hdef
  exact ⟨c, hmem, beq_iff_eq.mp hname, (Option.some.inj hdef).symm⟩

end Snapshot

namespace Lookup

/-- Within its document a node refers to itself if it declares, else to a fitting declaration
of its name. -/
theorem lexicalTarget?_eq_some {l : Lookup} {id : NodeId}
    (h : l.lexicalTarget? = some (some id)) :
    l.snapshot.index.declares l.entry = true ∧ id = l.entry.id ∨
      l.snapshot.index.declares l.entry = false ∧
        ∃ d, l.snapshot.definitionFor? id = some d ∧ l.entry.name? = some d.name ∧
          l.entry.kind.mayReferTo d.kind = true := by
  unfold lexicalTarget? at h
  split at h
  · next hdecl =>
    cases h
    exact Or.inl ⟨hdecl, rfl⟩
  · next hdecl =>
    right
    refine ⟨by simpa using hdecl, ?_⟩
    cases hk : l.entry.kind with
    | variableRef name =>
      simp only [hk, Option.some.injEq] at h
      obtain ⟨d, hdef, hname, hkind⟩ := Snapshot.definition_of_variableFor? h
      exact ⟨d, hdef, by rw [Entry.name?, hk, hname]; rfl, hkind⟩
    | call name range implicitThis =>
      simp only [hk, Option.some.injEq] at h
      obtain ⟨d, hdef, hname, hkind⟩ := Snapshot.definition_of_calleeFor? h range
      exact ⟨d, hdef, by rw [Entry.name?, hk, hname]; rfl, hkind⟩
    | propertyRef name range =>
      simp only [hk, Option.some.injEq] at h
      obtain ⟨d, hdef, hname, hkind⟩ := Snapshot.definition_of_propertyFor? h range
      exact ⟨d, hdef, by rw [Entry.name?, hk, hname]; rfl, hkind⟩
    | classRef name | constructorCall name range =>
      simp only [hk, Option.some.injEq] at h
      obtain ⟨d, hdef, hname, hkind⟩ := Snapshot.definition_of_classFor? h
      refine ⟨d, hdef, by rw [Entry.name?, hk, hname]; rfl, ?_⟩
      cases hd : d.kind <;> simp_all [Kind.mayReferTo]
    | _ => simp [hk] at h

/-- A find comes from an option that holds it. -/
theorem eq_some_of_ofOption {found : Option Definition} {d : Definition}
    (h : Outcome.ofOption found = .found d) : found = some d := by
  cases found with
  | none => cases h
  | some _ => cases h; rfl

/-- What an auxiliary document is found to declare has the name of the node, and a kind that such a
node can refer to. -/
theorem elsewhere_eq_found {l : Lookup} {d : Definition} (h : l.elsewhere = .found d) :
    ∃ a ∈ l.auxiliary, a.definitionFor? d.node = some d ∧ l.entry.name? = some d.name ∧
      l.entry.kind.mayReferTo d.kind = true := by
  unfold elsewhere at h
  split at h
  · cases h
  · cases hk : l.entry.kind with
    | call name range implicitThis =>
      simp only [hk] at h
      split at h
      · cases h
      · obtain ⟨a, ha, hdef⟩ := List.exists_of_findSome?_eq_some (eq_some_of_ofOption h)
        obtain ⟨m, hm, hname, rfl⟩ := Snapshot.methodDefinition?_eq_some hdef
        refine ⟨a, ha, Snapshot.definitionFor?_of_mem_methods hm, ?_, ?_⟩
        · rw [Entry.name?, hk, ← hname]
          rfl
        · cases hc : m.isConstructor <;> simp [MethodDecl.definition, hc, Kind.mayReferTo]
    | classRef name | constructorCall name range =>
      simp only [hk] at h
      split at h
      · cases h
      · obtain ⟨a, ha, hdef⟩ := List.exists_of_findSome?_eq_some (eq_some_of_ofOption h)
        obtain ⟨c, hc, hname, rfl⟩ := Snapshot.classDefinition?_eq_some hdef
        refine ⟨a, ha, Snapshot.definitionFor?_of_mem_classes hc, ?_, rfl⟩
        rw [Entry.name?, hk, ← hname]
        rfl
    | _ => simp [hk] at h

/-- A node resolves to itself if it declares, else to a declaration of its name in some document. -/
theorem resolve_standard_eq_ok {l : Lookup} {d : Definition}
    (h : Chain.standard.resolve l = .ok d) :
    l.snapshot.index.declares l.entry = true ∧ l.snapshot.definitionFor? l.entry.id = some d ∨
      ∃ owning ∈ l.snapshot :: l.auxiliary, owning.definitionFor? d.node = some d ∧
        l.entry.name? = some d.name ∧ l.entry.kind.mayReferTo d.kind = true := by
  rw [resolve_standard] at h
  split at h
  · next found hfound =>
    cases h
    obtain ⟨a, ha, hdef⟩ := elsewhere_eq_found hfound
    exact Or.inr ⟨a, List.mem_cons_of_mem _ ha, hdef⟩
  · obtain ⟨id, htarget, hdef⟩ := alone_eq_ok_iff.mp h
    rcases lexicalTarget?_eq_some htarget with ⟨hdecl, rfl⟩ | ⟨-, found, hfound, hname, hkind⟩
    · exact Or.inl ⟨hdecl, hdef⟩
    · rw [hdef] at hfound
      cases hfound
      rw [← (Snapshot.node_of_definitionFor? hdef).1] at hdef
      exact Or.inr ⟨l.snapshot, List.mem_cons_self, hdef, hname, hkind⟩

end Lookup

end GroovyIndex
