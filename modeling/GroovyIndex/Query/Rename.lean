import GroovyIndex.Accessor
import GroovyIndex.Edit
import GroovyIndex.Identifier
import GroovyIndex.Query.Occurrences

/-!
# Renaming

A rename replaces every occurrence of a symbol of the document in one batch. With a class its
constructors are renamed, and with a field or property, unless configured otherwise, its accessors.
Symbols of other documents, imports and built-in classes keep their names.
-/

namespace GroovyIndex

namespace ServiceConfig

/-- A rename may start at a node of the kind. -/
def isRenameable (config : ServiceConfig) : Kind → Bool
  | .variableRef .. | .call .. | .propertyRef .. | .methodDecl .. | .fieldDecl ..
  | .propertyDecl .. => true
  | .classDecl name _ synthetic => !synthetic && !config.isBuiltinType name
  | _ => false

end ServiceConfig

namespace EditBatch

/-- Adds an edit to each occurrence. -/
def addAll (batch : EditBatch) (references : List Reference) (newText : String) : EditBatch :=
  references.foldl (fun batch r => batch.add r.location.uri ⟨r.location.range, newText⟩) batch

end EditBatch

namespace Session

variable (s : Session)

/-- What is renamed in place of a definition: with a constructor its class. -/
def renamedWith (target : Definition) : Except QueryError Definition :=
  match target.kind, target.owner with
  | .constructor, some owner =>
    match s.snapshot.definitionFor? owner with
    | some d => .ok d
    | none => .error .nodeNotFound
  | _, _ => .ok target

/-- The definition may not change its name. -/
def keepsName (target : Definition) : Bool :=
  match target.kind with
  | .importDecl => true
  | .classDecl => s.config.isBuiltinType target.name
  | _ => false

/-- The node at a position, and the symbol that a rename there changes. -/
def renameTarget (pos : Position) : Except QueryError (Entry × Definition) := do
  let e ← s.entryAt pos
  if s.config.isRenameable e.kind then
    let found ← s.resolve e
    if found.uri = s.uri then
      let target ← s.renamedWith found
      if s.keepsName target then .error .unsupportedNodeKind else .ok (e, target)
    else .error .unsupportedNodeKind
  else .error .unsupportedNodeKind

/-- The identifier that a rename at a position starts from. -/
def prepareRename (pos : Position) : Except QueryError Range := do
  let (e, _) ← s.renameTarget pos
  match e.nameRange? with
  | some range => .ok range
  | none => .error .nodeNotFound

/-- The occurrences of the constructors of a class: their names where they are declared. -/
def constructorNames (target : Definition) : List Reference :=
  (s.snapshot.declarations.constructorsOf target.node).map fun m =>
    ⟨⟨target.uri, m.nameRange⟩, true⟩

/-- The accessors of one kind of a field or property, as far as its class declares them. -/
def accessorsOf (target : Definition) (accessor : Accessor) : List Definition :=
  match s.snapshotOf? target with
  | some owning =>
    ((owning.declarations.methodsNamed (accessor.methodName target.name)).filter
      (·.owner == target.owner)).filterMap fun m => owning.definitionFor? m.node
  | none => []

/-- Adds the edits that rename the constructors of a class. -/
def addConstructors (target : Definition) (newName : String) (batch : EditBatch) : EditBatch :=
  if target.kind = .classDecl then batch.addAll (s.constructorNames target) newName else batch

/-- Adds the edits that rename the accessors of a field or property. -/
def addAccessors (target : Definition) (newName : String) (batch : EditBatch) : EditBatch :=
  if s.config.synthesizeAccessors && target.kind.hasAccessors then
    (Accessor.ofType target.typeName).foldl (fun batch accessor =>
      (s.accessorsOf target accessor).foldl (fun batch d =>
        batch.addAll (s.referencesTo d true) (accessor.methodName newName)) batch) batch
  else batch

/-- The edits that give the symbol at a position a new name. -/
def rename (pos : Position) (newName : String) : Except QueryError EditBatch := do
  Identifier.validate newName
  let (_, target) ← s.renameTarget pos
  let references := s.referencesTo target true
  if references.isEmpty then .error .nodeNotFound
  else
    let batch := EditBatch.empty.addAll references newName
    .ok (s.addAccessors target newName (s.addConstructors target newName batch)).normalize

end Session

end GroovyIndex
