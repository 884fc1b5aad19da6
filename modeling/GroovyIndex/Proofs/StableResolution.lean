import GroovyIndex.Proofs.Relabel

/-!
# Resolution under new names

Resolution is stable under a relabelling that keeps apart what was apart: no declaration of
another name gets the node's new name, and what the node refers to gets it. Every look-up takes
the first of some candidates, and those of the new name are among the old ones.
-/

namespace GroovyIndex

/-! ### Stable look-ups -/

/-- The second look-up gives what the first one gives, provided that this is kept. -/
def Stable {β : Type} (keeps : β → Prop) (old new : Option β) : Prop :=
  (∀ y ∈ old, keeps y) → new = old

namespace Stable

variable {α β : Type} {keeps : β → Prop}

theorem or {a a' b b' : Option β} (ha : Stable keeps a a') (hb : Stable keeps b b') :
    Stable keeps (a.or b) (a'.or b') := by
  intro hkeep
  cases a with
  | some y => rw [ha hkeep]; rfl
  | none =>
    rw [ha (by simp), Option.none_or, Option.none_or]
    exact hb hkeep

theorem findSome? {f f' : α → Option β} {xs : List α} (h : ∀ x ∈ xs, Stable keeps (f x) (f' x)) :
    Stable keeps (xs.findSome? f) (xs.findSome? f') := by
  induction xs with
  | nil => exact fun _ => rfl
  | cons x rest ih =>
    have hrest := ih fun y hy => h y (List.mem_cons_of_mem _ hy)
    have hcons (g : α → Option β) : (x :: rest).findSome? g = (g x).or (rest.findSome? g) := by
      rw [List.findSome?_cons]
      cases g x <;> rfl
    rw [hcons f, hcons f']
    exact (h x List.mem_cons_self).or hrest

end Stable

/-- A node of the old name gets the new one. -/
def Keeps (labels : Labels) (name name' : String) (id : NodeId) : Prop :=
  (labels id).getD name = name'

/-- The first record of a name stays first, if it keeps the name and records of other names do not
get it. -/
theorem stable_find?_name {α : Type} (nameOf : α → String) (nodeOf : α → NodeId) (g : α → α)
    {labels : Labels} {name name' : String} {xs : List α} (hnode : ∀ x, nodeOf (g x) = nodeOf x)
    (hname : ∀ x ∈ xs, nameOf (g x) = (labels (nodeOf x)).getD (nameOf x))
    (hback : ∀ x ∈ xs, (labels (nodeOf x)).getD (nameOf x) = name' → nameOf x = name) :
    Stable (Keeps labels name name') ((xs.find? (nameOf · == name)).map nodeOf)
      (((xs.map g).find? (nameOf · == name')).map nodeOf) := by
  intro hfound
  induction xs with
  | nil => rfl
  | cons x rest ih =>
    rw [List.map_cons, List.find?_cons, List.find?_cons]
    by_cases hx : nameOf x = name
    · have hkeep : Keeps labels name name' (nodeOf x) := hfound _ (by simp [hx])
      have hnew : nameOf (g x) = name' := by
        rw [hname x List.mem_cons_self, hx]
        exact hkeep
      simp [hx, hnew, hnode]
    · have hnew : nameOf (g x) ≠ name' := by
        rw [hname x List.mem_cons_self]
        exact fun he => hx (hback x List.mem_cons_self he)
      have hrest : ∀ y ∈ (rest.find? (nameOf · == name)).map nodeOf, Keeps labels name name' y := by
        simpa [hx] using hfound
      rw [beq_false_of_ne hx, beq_false_of_ne hnew]
      apply ih _ _ hrest
      · exact fun y hy => hname y (List.mem_cons_of_mem _ hy)
      · exact fun y hy => hback y (List.mem_cons_of_mem _ hy)

namespace Snapshot

/-- Declarations of the kinds that get the new name had the old one. -/
def Apart (s : Snapshot) (labels : Labels) (kinds : SymbolKind → Bool) (name name' : String) :
    Prop :=
  ∀ d, s.definitionFor? d.node = some d → kinds d.kind = true →
    (labels d.node).getD d.name = name' → d.name = name

variable {labels : Labels} {s s' : Snapshot} {kinds : SymbolKind → Bool} {name name' : String}

private theorem Relabels.variableIn? (h : Relabels labels s s')
    (happart : s.Apart labels kinds name name') (hlocal : kinds .localVar = true)
    (hparameter : kinds .parameter = true) (scope : NodeId) (pos : Position) :
    Stable (Keeps labels name name')
      ((s.declarations.variableIn? scope name pos).map VariableDecl.node)
      ((s'.declarations.variableIn? scope name' pos).map VariableDecl.node) := by
  -- The latest variable of a name is the first one from behind.
  have hlast (d : Declarations) (n : String) : d.variableIn? scope n pos =
      (d.vars.filter fun v => v.scope == scope && v.declaredAt ≤ pos).reverse.find?
        (·.name == n) := by
    rw [← List.head?_filter, List.filter_reverse, ← List.getLast?_eq_head?_reverse,
      List.filter_filter, Declarations.variableIn?]
    simp only [Bool.and_assoc]
  have hvisible : (s'.declarations.vars.filter fun v => v.scope == scope && v.declaredAt ≤ pos) =
      (s.declarations.vars.filter fun v => v.scope == scope && v.declaredAt ≤ pos).map
        (VariableDecl.relabel labels) := by
    rw [h.vars, List.filter_map]
    rfl
  rw [hlast, hlast, hvisible, ← List.map_reverse]
  apply stable_find?_name _ _ (VariableDecl.relabel labels) (fun _ => rfl) (fun _ _ => rfl)
  intro v hv hnew
  have hmem := (List.mem_filter.mp (List.mem_reverse.mp hv)).1
  obtain ⟨range, hdef⟩ := definitionFor?_of_mem_vars hmem
  have hkind : kinds (v.definition s.uri range).kind = true := by
    cases hk : v.kind <;>
      simp [VariableDecl.definition, VariableKind.symbolKind, hk, hlocal, hparameter]
  exact happart _ hdef hkind hnew

private theorem stable_find?_fields (happart : s.Apart labels kinds name name')
    (hfield : kinds .field = true) (hproperty : kinds .property = true) {fields : List FieldDecl}
    (hfields : ∀ f ∈ fields, f ∈ s.declarations.fields) :
    Stable (Keeps labels name name') ((fields.find? (·.name == name)).map FieldDecl.node)
      (((fields.map (FieldDecl.relabel labels)).find? (·.name == name')).map FieldDecl.node) := by
  apply stable_find?_name _ _ (FieldDecl.relabel labels) (fun _ => rfl) (fun _ _ => rfl)
  intro f hf hnew
  have hkind : kinds (f.definition s.uri).kind = true := by
    cases hp : f.isProperty <;> simp [FieldDecl.definition, hp, hfield, hproperty]
  exact happart _ (definitionFor?_of_mem_fields (hfields f hf)) hkind hnew

private theorem Relabels.fieldOf? (h : Relabels labels s s')
    (happart : s.Apart labels kinds name name') (hfield : kinds .field = true)
    (hproperty : kinds .property = true) (owner : Option NodeId) :
    Stable (Keeps labels name name') ((s.declarations.fieldOf? owner name).map FieldDecl.node)
      ((s'.declarations.fieldOf? owner name').map FieldDecl.node) := by
  have hof : s'.declarations.fieldsOf owner =
      (s.declarations.fieldsOf owner).map (FieldDecl.relabel labels) := by
    rw [Declarations.fieldsOf, h.fields, List.filter_map]
    rfl
  rw [Declarations.fieldOf?, Declarations.fieldOf?, hof]
  apply stable_find?_fields happart hfield hproperty
  intro f hf
  exact (List.mem_filter.mp hf).1

private theorem firstPerKey_map {α β : Type} [DecidableEq β] {key : α → β} {g : α → α}
    (hkey : ∀ x, key (g x) = key x) (xs : List α) :
    firstPerKey key (xs.map g) = (firstPerKey key xs).map g := by
  induction xs with
  | nil => rfl
  | cons x rest ih =>
    have hcomp : (fun y => decide (key y ≠ key x)) ∘ g = fun y => decide (key y ≠ key x) := by
      funext y
      simp only [Function.comp_apply, hkey]
    rw [List.map_cons, firstPerKey, firstPerKey, ih, List.map_cons, hkey, List.filter_map, hcomp]

private theorem groupedBy_map {α β : Type} [DecidableEq β] (key : α → β) (g : α → α)
    (hkey : ∀ x, key (g x) = key x) (xs : List α) :
    groupedBy key (xs.map g) = (groupedBy key xs).map g := by
  have hcomp (first : α) :
      (fun y => decide (key y = key first)) ∘ g = fun y => decide (key y = key first) := by
    funext y
    simp only [Function.comp_apply, hkey]
  rw [groupedBy, groupedBy, firstPerKey_map hkey, List.flatMap_map, List.map_flatMap]
  simp only [hkey, List.filter_map, hcomp]

private theorem Relabels.head?_fieldsNamed (h : Relabels labels s s')
    (happart : s.Apart labels kinds name name') (hfield : kinds .field = true)
    (hproperty : kinds .property = true) :
    Stable (Keeps labels name name') ((s.declarations.fieldsNamed name).head?.map FieldDecl.node)
      ((s'.declarations.fieldsNamed name').head?.map FieldDecl.node) := by
  have hgrouped : groupedBy FieldDecl.owner s'.declarations.fields =
      (groupedBy FieldDecl.owner s.declarations.fields).map (FieldDecl.relabel labels) := by
    rw [h.fields]
    exact groupedBy_map FieldDecl.owner (FieldDecl.relabel labels) (fun _ => rfl) _
  rw [Declarations.fieldsNamed, Declarations.fieldsNamed, List.head?_filter, List.head?_filter,
    hgrouped]
  apply stable_find?_fields happart hfield hproperty
  intro f hf
  exact mem_groupedBy.mp hf

private theorem Relabels.head?_methodsNamed (h : Relabels labels s s')
    (happart : s.Apart labels kinds name name') (hmethod : kinds .method = true)
    (hconstructor : kinds .constructor = true) :
    Stable (Keeps labels name name') ((s.declarations.methodsNamed name).head?.map MethodDecl.node)
      ((s'.declarations.methodsNamed name').head?.map MethodDecl.node) := by
  rw [Declarations.methodsNamed, Declarations.methodsNamed, List.head?_filter, List.head?_filter,
    h.methods]
  apply stable_find?_name _ _ (MethodDecl.relabel labels _) (fun _ => rfl) (fun _ _ => rfl)
  intro m hm hnew
  have hkind : kinds (m.definition s.uri).kind = true := by
    cases hc : m.isConstructor <;> simp [MethodDecl.definition, hc, hmethod, hconstructor]
  exact happart _ (definitionFor?_of_mem_methods hm) hkind hnew

private theorem Relabels.head?_classesNamed (h : Relabels labels s s')
    (happart : s.Apart labels kinds name name') (hclass : kinds .classDecl = true) :
    Stable (Keeps labels name name') ((s.declarations.classesNamed name).head?.map ClassDecl.node)
      ((s'.declarations.classesNamed name').head?.map ClassDecl.node) := by
  rw [Declarations.classesNamed, Declarations.classesNamed, List.head?_filter, List.head?_filter,
    h.classes]
  apply stable_find?_name _ _ (ClassDecl.relabel labels) (fun _ => rfl) (fun _ _ => rfl)
  intro c hc hnew
  exact happart (c.definition s.uri) (definitionFor?_of_mem_classes hc) hclass hnew

private theorem Relabels.importNamed? (h : Relabels labels s s')
    (happart : s.Apart labels kinds name name') (himport : kinds .importDecl = true) :
    Stable (Keeps labels name name') ((s.declarations.importNamed? name).map ImportDecl.node)
      ((s'.declarations.importNamed? name').map ImportDecl.node) := by
  have hmem {i : ImportDecl} (hi : i ∈ s.declarations.namedImports) : i ∈ s.declarations.imports :=
    (List.mem_filter.mp (mem_of_mem_firstPerKey hi)).1
  have hsame : s'.declarations.namedImports = s.declarations.namedImports.map id := by
    rw [Declarations.namedImports, h.imports_eq, List.map_id]
    rfl
  rw [Declarations.importNamed?, Declarations.importNamed?, hsame]
  apply stable_find?_name _ _ id (fun _ => rfl)
  · intro i hi
    rw [h.labels_import (hmem hi)]
    rfl
  · intro i hi hnew
    exact happart (i.definition s.uri) (definitionFor?_of_mem_imports (hmem hi)) himport hnew

/-! ### Stable resolution -/

theorem Relabels.declaredIn? (h : Relabels labels s s') (happart : s.Apart labels kinds name name')
    (hkinds : ∀ kind, (Kind.variableRef name).mayReferTo kind = true → kinds kind = true)
    (scope : Entry) (pos : Position) :
    Stable (Keeps labels name name') (s.declaredIn? scope name pos)
      (s'.declaredIn? (scope.relabel labels) name' pos) := by
  have howner : fieldOwner? (scope.relabel labels) = fieldOwner? scope := by
    unfold fieldOwner? Entry.relabel
    cases scope.kind <;> cases labels scope.id <;> rfl
  rw [Snapshot.declaredIn?, Snapshot.declaredIn?, howner]
  apply Stable.or
  · exact h.variableIn? happart (hkinds _ rfl) (hkinds _ rfl) scope.id pos
  · cases fieldOwner? scope with
    | none => exact fun _ => rfl
    | some owner => exact h.fieldOf? happart (hkinds _ rfl) (hkinds _ rfl) owner

theorem Relabels.variableFor? (h : Relabels labels s s') (happart : s.Apart labels kinds name name')
    (hkinds : ∀ kind, (Kind.variableRef name).mayReferTo kind = true → kinds kind = true)
    (node : NodeId) (pos : Position) :
    Stable (Keeps labels name name') (s.variableFor? node name pos)
      (s'.variableFor? node name' pos) := by
  rw [Snapshot.variableFor?, Snapshot.variableFor?, h.index.scopes, List.findSome?_map]
  apply Stable.findSome?
  intro scope _
  exact h.declaredIn? happart hkinds scope pos

private theorem calleeFor?_eq (s : Snapshot) (node : NodeId) (name : String) (implicitThis : Bool)
    (pos : Position) :
    s.calleeFor? node name implicitThis pos =
      ((s.declarations.methodsNamed name).head?.map MethodDecl.node).or
        (if implicitThis then s.variableFor? node name pos else none) := by
  unfold calleeFor?
  cases s.declarations.methodsNamed name <;> rfl

theorem Relabels.calleeFor? (h : Relabels labels s s') {range : Option Range} {implicitThis : Bool}
    (happart : s.Apart labels (Kind.call name range implicitThis).mayReferTo name name')
    (node : NodeId) (pos : Position) :
    Stable (Keeps labels name name') (s.calleeFor? node name implicitThis pos)
      (s'.calleeFor? node name' implicitThis pos) := by
  rw [calleeFor?_eq, calleeFor?_eq]
  apply Stable.or
  · exact h.head?_methodsNamed happart rfl rfl
  · cases implicitThis with
    | false => exact fun _ => rfl
    | true =>
      apply h.variableFor? happart
      intro kind hkind
      cases kind <;> simp_all [Kind.mayReferTo]

theorem Relabels.propertyFor? (h : Relabels labels s s') {range : Option Range}
    (happart : s.Apart labels (Kind.propertyRef name range).mayReferTo name name') (node : NodeId) :
    Stable (Keeps labels name name') (s.propertyFor? node name) (s'.propertyFor? node name') := by
  have hmap (a b : Option FieldDecl) :
      (a.or b).map FieldDecl.node = (a.map FieldDecl.node).or (b.map FieldDecl.node) := by
    cases a <;> rfl
  rw [Snapshot.propertyFor?, Snapshot.propertyFor?, h.index.owner?, hmap, hmap]
  apply Stable.or
  · exact h.fieldOf? happart rfl rfl (s.index.owner? node)
  · exact h.head?_fieldsNamed happart rfl rfl

private theorem classFor?_eq (s : Snapshot) (name : String) :
    s.classFor? name = ((s.declarations.classesNamed name).head?.map ClassDecl.node).or
      ((s.declarations.importNamed? name).map ImportDecl.node) := by
  unfold classFor?
  cases s.declarations.classesNamed name <;> rfl

theorem Relabels.classFor? (h : Relabels labels s s') (happart : s.Apart labels kinds name name')
    (hclass : kinds .classDecl = true) (himport : kinds .importDecl = true) :
    Stable (Keeps labels name name') (s.classFor? name) (s'.classFor? name') := by
  rw [classFor?_eq, classFor?_eq]
  exact (h.head?_classesNamed happart hclass).or (h.importNamed? happart himport)

/-- Under new names the same nodes have definitions. -/
theorem Relabels.map_definitionFor? (h : Relabels labels s s') (id : NodeId) :
    (s'.definitionFor? id).map Definition.node = (s.definitionFor? id).map Definition.node := by
  rw [Snapshot.definitionFor?, Snapshot.definitionFor?, h.index.get?]
  cases s.index.get? id with
  | none => rfl
  | some e =>
    have hkind : (e.relabel labels).kind.symbolKind? = e.kind.symbolKind? :=
      e.kind.symbolKind?_relabel _
    have hname : (e.relabel labels).kind.declaredName?.isSome = e.kind.declaredName?.isSome :=
      e.kind.isSome_declaredName?_relabel _
    simp only [Option.map_some, Option.bind_some, definitionOf?, h.index.declarer?,
      e.range_relabel, hkind]
    cases e.range <;> cases s.index.declarer? e <;> cases e.kind.symbolKind? <;>
      cases hold : e.kind.declaredName? <;>
      cases hnew : (e.relabel labels).kind.declaredName? <;> simp_all

/-- What a node of the kind, which does not declare, refers to. -/
private def referredBy? (s : Snapshot) (node : NodeId) (pos : Position) :
    Kind → Option (Option NodeId)
  | .variableRef name => some (s.variableFor? node name pos)
  | .call name _ implicitThis => some (s.calleeFor? node name implicitThis pos)
  | .propertyRef name _ => some (s.propertyFor? node name)
  | .classRef name | .constructorCall name _ => some (s.classFor? name)
  | _ => none

/-- If declarations for its kind stay apart, a node refers to what it referred to, as long as that
keeps its name. -/
private theorem Relabels.referredBy? (h : Relabels labels s s') {kind : Kind}
    {label : Option String} {node : NodeId} {pos : Position}
    (happart : ∀ name, kind.name? = some name →
      s.Apart labels kind.mayReferTo name (label.getD name))
    (hkeep : ∀ name id, kind.name? = some name → s.referredBy? node pos kind = some (some id) →
      Keeps labels name (label.getD name) id) :
    s'.referredBy? node pos (kind.relabel label) = s.referredBy? node pos kind := by
  cases kind with
  | variableRef name =>
    have hnew : (Kind.variableRef name).relabel label = .variableRef (label.getD name) := by
      cases label <;> rfl
    have hstable := h.variableFor? (happart name rfl) (fun _ => id) node pos
    rw [hnew]
    exact congrArg some (hstable fun id hid => hkeep name id rfl (congrArg some hid))
  | call name range implicitThis =>
    have hnew : (Kind.call name range implicitThis).relabel label =
        .call (label.getD name) range implicitThis := by
      cases label <;> rfl
    have hstable := h.calleeFor? (happart name rfl) node pos
    rw [hnew]
    exact congrArg some (hstable fun id hid => hkeep name id rfl (congrArg some hid))
  | propertyRef name range =>
    have hnew : (Kind.propertyRef name range).relabel label =
        .propertyRef (label.getD name) range := by
      cases label <;> rfl
    have hstable := h.propertyFor? (happart name rfl) node
    rw [hnew]
    exact congrArg some (hstable fun id hid => hkeep name id rfl (congrArg some hid))
  | classRef name =>
    have hnew : (Kind.classRef name).relabel label = .classRef (label.getD name) := by
      cases label <;> rfl
    have hstable := h.classFor? (happart name rfl) rfl rfl
    rw [hnew]
    exact congrArg some (hstable fun id hid => hkeep name id rfl (congrArg some hid))
  | constructorCall name range =>
    have hnew : (Kind.constructorCall name range).relabel label =
        .constructorCall (label.getD name) range := by
      cases label <;> rfl
    have hstable := h.classFor? (happart name rfl) rfl rfl
    rw [hnew]
    exact congrArg some (hstable fun id hid => hkeep name id rfl (congrArg some hid))
  | _ => cases label <;> rfl

end Snapshot

namespace Lookup

variable {labels : Labels} {s s' : Snapshot} {e : Entry}

private theorem lexicalTarget?_eq (l : Lookup) :
    l.lexicalTarget? =
      if l.snapshot.index.declares l.entry then some (some l.entry.id)
      else l.snapshot.referredBy? l.entry.id l.position l.entry.kind := by
  unfold lexicalTarget?
  cases l.entry.kind <;> rfl

/-- Under new names that keep the declarations of a node apart, the node refers to what it referred
to, if that keeps its name. -/
theorem lexicalTarget?_relabel (h : s.Relabels labels s')
    (happart : ∀ name, e.name? = some name → s.index.declares e = false →
      s.Apart labels e.kind.mayReferTo name ((labels e.id).getD name))
    (hkeep : ∀ name id, e.name? = some name → s.index.declares e = false →
      lexicalTarget? ⟨s, [], e⟩ = some (some id) → Keeps labels name ((labels e.id).getD name) id) :
    lexicalTarget? ⟨s', [], e.relabel labels⟩ = lexicalTarget? ⟨s, [], e⟩ := by
  rw [lexicalTarget?_eq ⟨s', [], e.relabel labels⟩, h.index.declares]
  by_cases hdecl : s.index.declares e = true
  · rw [lexicalTarget?_eq, if_pos hdecl, if_pos hdecl, e.id_relabel]
  · have hnot : s.index.declares e = false := by simpa using hdecl
    have hold : lexicalTarget? ⟨s, [], e⟩ =
        s.referredBy? e.id (position ⟨s, [], e⟩) e.kind := by
      rw [lexicalTarget?_eq, if_neg hdecl]
    rw [if_neg hdecl, hold]
    apply h.referredBy?
    · intro name hname
      exact happart name hname hnot
    · intro name id hname hid
      exact hkeep name id hname hnot (hold.trans hid)

/-- If its declarations stay apart, a node resolves as it did, as long as what it refers to keeps
its name. -/
theorem alone_relabel (h : s.Relabels labels s')
    (happart : ∀ name, e.name? = some name → s.index.declares e = false →
      s.Apart labels e.kind.mayReferTo name ((labels e.id).getD name))
    (hkeep : ∀ name id, e.name? = some name → s.index.declares e = false →
      lexicalTarget? ⟨s, [], e⟩ = some (some id) → Keeps labels name ((labels e.id).getD name) id) :
    (alone ⟨s', [], e.relabel labels⟩).map Definition.node =
      (alone ⟨s, [], e⟩).map Definition.node := by
  unfold alone
  rw [lexicalTarget?_relabel h happart hkeep]
  cases lexicalTarget? ⟨s, [], e⟩ with
  | none => rfl
  | some target =>
    cases target with
    | none => rfl
    | some id =>
      have hdef := h.map_definitionFor? id
      simp only [Option.bind_some]
      cases hold : s.definitionFor? id <;> cases hnew : s'.definitionFor? id <;>
        simp_all [Except.map]

end Lookup

end GroovyIndex
