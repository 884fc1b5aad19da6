import GroovyIndex.Proofs.Resolution

/-!
# Declarations of the document come first

Auxiliary documents are asked first, but only for calls and class names that the document does not
declare. So they leave what a node resolves to within its document, imports apart, with one
exception: a call can refer to a field, and the test looks for methods and variables only.
-/

namespace GroovyIndex

namespace Lookup

/-- A call without a receiver refers to a field, no variable of its name can be seen, and an
auxiliary document has a method of its name. -/
def Overridden (l : Lookup) (d : Definition) : Prop :=
  ∃ name range, l.entry.kind = .call name range true ∧ d.kind.hasAccessors = true ∧
    l.snapshot.declarations.visibleVariable? l.snapshot.index name l.entry.id l.position = none ∧
    ∃ a ∈ l.auxiliary, a.declarations.methodsNamed name ≠ []

end Lookup

/-! ### What a document says by itself -/

namespace Index

/-- A node that only uses a name declares nothing. -/
theorem not_declares_of_use {idx : Index} (hd : idx.Distinct) {e : Entry}
    (he : e ∈ idx.entries) (hdecl : e.kind.isDeclaration = false)
    (hvar : e.kind.isVariableRef = false) : idx.declares e = false := by
  rw [Bool.eq_false_iff]
  intro h
  rw [isVariableRef_of_declares hd he h hdecl] at hvar
  cases hvar

end Index

namespace Snapshot

variable {s : Snapshot}

/-- Where no variable of the name can be seen, a name of a variable refers to a field. -/
private theorem hasAccessors_of_variableFor? {node id : NodeId} {name : String} {pos : Position}
    {d : Definition} (h : s.variableFor? node name pos = some id)
    (hnone : s.declarations.visibleVariable? s.index name node pos = none)
    (hdef : s.definitionFor? id = some d) : d.kind.hasAccessors = true := by
  obtain ⟨scope, hscope, hin⟩ := List.exists_of_findSome?_eq_some h
  have hvar := List.findSome?_eq_none_iff.mp hnone scope hscope
  rw [declaredIn?, hvar, Option.map_none, Option.none_or] at hin
  obtain ⟨owner, -, howner⟩ := Option.bind_eq_some_iff.mp hin
  obtain ⟨f, hf, rfl⟩ := Option.map_eq_some_iff.mp howner
  rw [definitionFor?_of_mem_fields (Declarations.mem_of_fieldOf? hf).1] at hdef
  cases hdef
  cases hp : f.isProperty <;> simp [FieldDecl.definition, hp, SymbolKind.hasAccessors]

/-- A call that refers to a field has no method of its name in its document. -/
private theorem methodsNamed_eq_nil {node id : NodeId} {name : String} {implicitThis : Bool}
    {pos : Position} {d : Definition} (h : s.calleeFor? node name implicitThis pos = some id)
    (hdef : s.definitionFor? id = some d) (hd : d.kind.hasAccessors = true) :
    s.declarations.methodsNamed name = [] := by
  cases hm : s.declarations.methodsNamed name with
  | nil => rfl
  | cons m rest =>
    rw [calleeFor?, hm] at h
    cases h
    have hmem : m ∈ s.declarations.methodsNamed name := by rw [hm]; exact List.mem_cons_self
    rw [definitionFor?_of_mem_methods (List.mem_filter.mp hmem).1] at hdef
    cases hdef
    cases hc : m.isConstructor <;>
      simp [MethodDecl.definition, hc, SymbolKind.hasAccessors] at hd

/-- Where a method of the name is listed, one is found. -/
private theorem isSome_methodDefinition? {name : String}
    (h : s.declarations.methodsNamed name ≠ []) : (s.methodDefinition? name).isSome = true := by
  obtain ⟨m, rest, hm⟩ := List.exists_cons_of_ne_nil h
  have hmem : m ∈ s.declarations.methodsNamed name := by rw [hm]; exact List.mem_cons_self
  rw [methodDefinition?, hm, List.head?_cons, Option.bind_some,
    definitionFor?_of_mem_methods (List.mem_filter.mp hmem).1]
  rfl

end Snapshot

namespace Lookup

variable {l : Lookup}

private theorem lexicalTarget?_call (he : l.entry ∈ l.snapshot.index.entries) {name : String}
    {range : Option Range} {implicitThis : Bool}
    (hk : l.entry.kind = .call name range implicitThis) :
    l.lexicalTarget? = some (l.snapshot.calleeFor? l.entry.id name implicitThis l.position) := by
  have hnot : l.snapshot.index.declares l.entry = false := by
    apply Index.not_declares_of_use l.snapshot.distinct he <;> rw [hk] <;> rfl
  rw [lexicalTarget?, hnot, hk]
  rfl

private theorem lexicalTarget?_class (he : l.entry ∈ l.snapshot.index.entries) {name : String}
    (hk : l.entry.kind = .classRef name ∨ ∃ range, l.entry.kind = .constructorCall name range) :
    l.lexicalTarget? = some (l.snapshot.classFor? name) := by
  have hnot : l.snapshot.index.declares l.entry = false := by
    apply Index.not_declares_of_use l.snapshot.distinct he <;>
      rcases hk with hk | ⟨range, hk⟩ <;> rw [hk] <;> rfl
  rw [lexicalTarget?, hnot]
  rcases hk with hk | ⟨range, hk⟩ <;> rw [hk] <;> rfl

/-! ### What the auxiliary documents add -/

/-- A class name that refers to something other than an import is declared in the document. -/
private theorem ownsClass_of_alone (he : l.entry ∈ l.snapshot.index.entries) {name : String}
    (hk : l.entry.kind = .classRef name ∨ ∃ range, l.entry.kind = .constructorCall name range)
    {d : Definition} (hlocal : l.alone = .ok d) (hkind : d.kind ≠ .importDecl) :
    l.snapshot.ownsClass name = true := by
  obtain ⟨id, htarget, hdef⟩ := alone_eq_ok_iff.mp hlocal
  rw [lexicalTarget?_class he hk] at htarget
  have hclass := Option.some.inj htarget
  rw [Snapshot.ownsClass]
  unfold Snapshot.classFor? at hclass
  split at hclass
  · next c rest hc => rw [hc]; rfl
  · obtain ⟨i, hi, rfl⟩ := Option.map_eq_some_iff.mp hclass
    have hmem := (List.mem_filter.mp (mem_of_mem_firstPerKey (List.mem_of_find?_eq_some hi))).1
    rw [Snapshot.definitionFor?_of_mem_imports hmem] at hdef
    cases hdef
    exact absurd rfl hkind

/-- A call that refers to something although the document is not taken to declare it refers to a
field, with no variable in sight. -/
private theorem field_of_alone (he : l.entry ∈ l.snapshot.index.entries) {name : String}
    {range : Option Range} {implicitThis : Bool}
    (hk : l.entry.kind = .call name range implicitThis) {d : Definition}
    (hlocal : l.alone = .ok d)
    (howns : l.snapshot.ownsCall l.entry.id name implicitThis l.position = false) :
    implicitThis = true ∧ d.kind.hasAccessors = true ∧
      l.snapshot.declarations.visibleVariable? l.snapshot.index name l.entry.id l.position =
        none := by
  obtain ⟨id, htarget, hdef⟩ := alone_eq_ok_iff.mp hlocal
  rw [lexicalTarget?_call he hk] at htarget
  have hcallee := Option.some.inj htarget
  rw [Snapshot.ownsCall, Bool.or_eq_false_iff] at howns
  obtain ⟨hmethods, hvisible⟩ := howns
  have hnil : l.snapshot.declarations.methodsNamed name = [] := by simpa using hmethods
  rw [Snapshot.calleeFor?, hnil] at hcallee
  cases implicitThis with
  | false => cases hcallee
  | true =>
    have hnone : l.snapshot.declarations.visibleVariable? l.snapshot.index name l.entry.id
        l.position = none := by simpa using hvisible
    exact ⟨rfl, Snapshot.hasAccessors_of_variableFor? hcallee hnone hdef, hnone⟩

/-- What the auxiliary documents find in place of a declaration of the document is a method in place
of a field. -/
private theorem overridden_of_elsewhere (he : l.entry ∈ l.snapshot.index.entries)
    {d found : Definition} (hlocal : l.alone = .ok d) (hkind : d.kind ≠ .importDecl)
    (h : l.elsewhere = .found found) : l.Overridden d := by
  unfold elsewhere at h
  split at h
  · cases h
  · split at h
    · next name range implicitThis hk =>
      split at h
      · cases h
      · next howns =>
        obtain ⟨rfl, hfield, hnone⟩ := field_of_alone he hk hlocal (by simpa using howns)
        refine ⟨name, range, hk, hfield, hnone, ?_⟩
        obtain ⟨a, ha, hm⟩ := List.exists_of_findSome?_eq_some (eq_some_of_ofOption h)
        obtain ⟨m, hmem, hname, -⟩ := Snapshot.methodDefinition?_eq_some hm
        have hlisted : m ∈ a.declarations.methodsNamed name :=
          List.mem_filter.mpr ⟨hmem, by simp [hname]⟩
        exact ⟨a, ha, List.ne_nil_of_mem hlisted⟩
    · next name hk =>
      rw [ownsClass_of_alone he (Or.inl hk) hlocal hkind] at h
      cases h
    · next name range hk =>
      rw [ownsClass_of_alone he (Or.inr ⟨range, hk⟩) hlocal hkind] at h
      cases h
    · cases h

/-- A call that is overridden resolves to a method of an auxiliary document. -/
private theorem elsewhere_of_overridden (he : l.entry ∈ l.snapshot.index.entries) {d : Definition}
    (hlocal : l.alone = .ok d) (h : l.Overridden d) :
    ∃ a ∈ l.auxiliary, ∃ m ∈ a.declarations.methods, l.entry.name? = some m.name ∧
      l.elsewhere = .found (m.definition a.uri) := by
  obtain ⟨name, range, hk, hfield, hnone, a, ha, hmethods⟩ := h
  obtain ⟨id, htarget, hdef⟩ := alone_eq_ok_iff.mp hlocal
  rw [lexicalTarget?_call he hk] at htarget
  have hnil := Snapshot.methodsNamed_eq_nil (Option.some.inj htarget) hdef hfield
  have howns : l.snapshot.ownsCall l.entry.id name true l.position = false := by
    rw [Snapshot.ownsCall, hnil, hnone]
    rfl
  have hsome : (l.auxiliary.findSome? (·.methodDefinition? name)).isSome = true :=
    List.findSome?_isSome_iff.mpr ⟨a, ha, Snapshot.isSome_methodDefinition? hmethods⟩
  obtain ⟨found, hfound⟩ := Option.isSome_iff_exists.mp hsome
  obtain ⟨b, hb, hm⟩ := List.exists_of_findSome?_eq_some hfound
  obtain ⟨m, hmem, rfl, rfl⟩ := Snapshot.methodDefinition?_eq_some hm
  have hne : l.auxiliary.isEmpty = false := by
    rw [List.isEmpty_eq_false_iff]
    exact List.ne_nil_of_mem ha
  refine ⟨b, hb, m, hmem, by rw [Entry.name?, hk]; rfl, ?_⟩
  simp only [elsewhere, hne, hk, howns, hfound, Outcome.ofOption, Bool.false_eq_true, ↓reduceIte]

/-- Auxiliary documents leave what a node resolves to within its document, imports apart, unless a
method of theirs overrides a field. -/
theorem resolve_local_first {s : Snapshot} (auxiliary : List Snapshot) {e : Entry}
    (he : e ∈ s.index.entries) {d : Definition}
    (hlocal : Chain.standard.resolve ⟨s, [], e⟩ = .ok d) (hkind : d.kind ≠ .importDecl) :
    (¬ Overridden ⟨s, auxiliary, e⟩ d →
      Chain.standard.resolve ⟨s, auxiliary, e⟩ = .ok d) ∧
    (Overridden ⟨s, auxiliary, e⟩ d →
      ∃ a ∈ auxiliary, ∃ m ∈ a.declarations.methods, e.name? = some m.name ∧
        Chain.standard.resolve ⟨s, auxiliary, e⟩ = .ok (m.definition a.uri) ∧
        m.definition a.uri ≠ d) := by
  rw [resolve_standard_alone rfl] at hlocal
  -- By itself the document says the same whatever the auxiliary documents are.
  have hlocal : alone ⟨s, auxiliary, e⟩ = .ok d := hlocal
  rw [resolve_standard]
  constructor
  · intro hnot
    split
    · next found hfound => exact absurd (overridden_of_elsewhere he hlocal hkind hfound) hnot
    · exact hlocal
  · intro hover
    obtain ⟨a, ha, m, hm, hname, hfound⟩ := elsewhere_of_overridden he hlocal hover
    refine ⟨a, ha, m, hm, hname, by rw [hfound], ?_⟩
    obtain ⟨_, _, -, hfield, -⟩ := hover
    intro heq
    rw [← heq] at hfield
    cases hc : m.isConstructor <;>
      simp [MethodDecl.definition, hc, SymbolKind.hasAccessors] at hfield

/-! ### A field that is overridden -/

/-- A class with a field `run` and a method that calls it. -/
private def task : Snapshot :=
  .ofParsed (.clean ⟨⟨"file:///main.groovy"⟩, 1⟩
    ⟨⟨0⟩, .moduleRoot, none,
      [⟨⟨1⟩, .classDecl "Task" (some (.ofCorners 0 6 0 10)) false, some (.ofCorners 0 0 4 1),
        [⟨⟨2⟩, .fieldDecl "run" (some (.ofCorners 1 10 1 13)) (some "Closure"),
          some (.ofCorners 1 2 1 13), []⟩,
        ⟨⟨3⟩, .methodDecl "go" (some (.ofCorners 2 6 2 8)) none false, some (.ofCorners 2 2 2 22),
          [⟨⟨4⟩, .block, some (.ofCorners 2 11 2 22),
            [⟨⟨5⟩, .call "run" (some (.ofCorners 2 13 2 16)) true, some (.ofCorners 2 13 2 18),
              []⟩]⟩]⟩]⟩]⟩) 0

/-- A document with one method. -/
private def library (method : String) : Snapshot :=
  .ofParsed (.clean ⟨⟨"file:///lib.groovy"⟩, 1⟩
    ⟨⟨0⟩, .moduleRoot, none,
      [⟨⟨1⟩, .methodDecl method (some (.ofCorners 0 4 0 7)) none false, some (.ofCorners 0 0 0 12),
        []⟩]⟩) 1

private def runCall : Entry :=
  ⟨⟨5⟩, .call "run" (some (.ofCorners 2 13 2 16)) true, some (.ofCorners 2 13 2 18), [],
    [⟨4⟩, ⟨3⟩, ⟨1⟩, ⟨0⟩]⟩

private def runField : Definition :=
  ⟨⟨"file:///main.groovy"⟩, ⟨2⟩, "run", .field, .ofCorners 1 2 1 13, .ofCorners 1 10 1 13,
    some "Closure", some ⟨1⟩⟩

private theorem resolve_runCall : Chain.standard.resolve ⟨task, [], runCall⟩ = .ok runField := by
  rfl

/-- The call resolves to the field, unless an auxiliary document has a method of its name. -/
theorem resolve_local_first_task :
    runCall ∈ task.index.entries ∧ Chain.standard.resolve ⟨task, [], runCall⟩ = .ok runField ∧
    Chain.standard.resolve ⟨task, [library "stop"], runCall⟩ = .ok runField ∧
    ∃ a ∈ [library "run"], ∃ m ∈ a.declarations.methods, runCall.name? = some m.name ∧
      Chain.standard.resolve ⟨task, [library "run"], runCall⟩ = .ok (m.definition a.uri) ∧
      m.definition a.uri ≠ runField := by
  have he : runCall ∈ task.index.entries := by decide
  have hkind : runField.kind ≠ .importDecl := by decide
  refine ⟨he, resolve_runCall, ?_, ?_⟩
  · apply (resolve_local_first [library "stop"] he resolve_runCall hkind).1
    rintro ⟨name, range, hk, -, -, a, ha, hmethods⟩
    cases hk
    cases List.mem_singleton.mp ha
    exact hmethods (by decide)
  · apply (resolve_local_first [library "run"] he resolve_runCall hkind).2
    exact ⟨"run", _, rfl, rfl, by decide, library "run", List.mem_singleton_self _, by decide⟩

/-- It is not so that the declarations of a document always come first. -/
theorem not_forall_resolve_local :
    ¬ ∀ (s : Snapshot) (auxiliary : List Snapshot), ∀ e ∈ s.index.entries, ∀ d,
      Chain.standard.resolve ⟨s, [], e⟩ = .ok d → d.kind ≠ .importDecl →
        Chain.standard.resolve ⟨s, auxiliary, e⟩ = .ok d := by
  intro h
  have hfirst := h task [library "run"] runCall (by decide) runField resolve_runCall (by decide)
  exact absurd hfirst (by decide)

end Lookup

end GroovyIndex
