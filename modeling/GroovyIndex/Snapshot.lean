import GroovyIndex.Declarations
import GroovyIndex.Index.Locate
import GroovyIndex.Tree.Parsed

/-!
# Snapshots

A snapshot is one parsed version of a document with its index and its declarations, and the number
of the build that made it. It never changes, so whoever holds one can go on asking it while newer
ones come and go.
-/

namespace GroovyIndex

/-- A parsed document with its index and declarations. -/
structure Snapshot where
  parsed : ParsedModule
  /-- The number of the build, taken when the build starts. -/
  generation : Nat
  index : Index
  declarations : Declarations
  index_eq : index = .ofTree parsed.root
  declarations_eq : declarations = .ofIndex index

namespace Kind

/-- What a node of the kind declares, where it declares something. -/
def symbolKind? : Kind → Option SymbolKind
  | classDecl .. => some .classDecl
  | methodDecl _ _ _ isConstructor => some (if isConstructor then .constructor else .method)
  | fieldDecl .. => some .field
  | propertyDecl .. => some .property
  | parameter .. => some .parameter
  | importDecl .. => some .importDecl
  | variableRef .. => some .localVar
  | _ => none

end Kind

namespace Snapshot

/-- The snapshot of a parsed document. -/
def ofParsed (parsed : ParsedModule) (generation : Nat) : Snapshot :=
  let index := Index.ofTree parsed.root
  ⟨parsed, generation, index, .ofIndex index, rfl, rfl⟩

/-- The document. -/
def document (s : Snapshot) : Document := s.parsed.document

/-- The name of the document. -/
def uri (s : Snapshot) : Uri := s.document.uri

/-- The definition whose identifier stands at an entry: of a declaring node, or of the variable
that a statement declares. It needs a place in the source. -/
def definitionOf? (s : Snapshot) (e : Entry) : Option Definition := do
  let range ← e.range
  let declarer ← s.index.declarer? e
  let kind ← e.kind.symbolKind?
  let name ← e.kind.declaredName?
  return {
    uri := s.uri
    node := e.id
    name := name
    kind := kind
    range := declarer.range.getD range
    selectionRange := e.nameRange?.getD range
    typeName := declarer.kind.declaredType?
    owner := if kind.isMember then s.index.owner? e.id else none }

/-- The definition whose identifier stands at a node. -/
def definitionFor? (s : Snapshot) (id : NodeId) : Option Definition :=
  (s.index.get? id).bind s.definitionOf?

end Snapshot

end GroovyIndex
