import GroovyIndex.Resolution.Chain

/-!
# Lexical resolution

The strategy for one document by itself. A name of a variable refers to the innermost declaration
that it can see: a variable of a scope declared at or before the use, or a field of a class or of
the document. Calls refer to methods, properties to fields, and classes to classes or imports.
-/

namespace GroovyIndex

namespace Snapshot

variable (s : Snapshot)

/-- Whose fields can be seen in a scope: those of a class, and in the whole document those
of the script. -/
def fieldOwner? (scope : Entry) : Option (Option NodeId) :=
  match scope.kind with
  | .classDecl .. => some (some scope.id)
  | .moduleRoot => some none
  | _ => none

/-- What a name refers to if it is declared in a scope itself: a variable, else a field. -/
def declaredIn? (scope : Entry) (name : String) (pos : Position) : Option NodeId :=
  ((s.declarations.variableIn? scope.id name pos).map VariableDecl.node).or
    ((fieldOwner? scope).bind fun owner =>
      (s.declarations.fieldOf? owner name).map FieldDecl.node)

/-- What a name of a variable refers to: its declaration in the innermost scope that has one. -/
def variableFor? (node : NodeId) (name : String) (pos : Position) : Option NodeId :=
  (s.index.scopes node).findSome? fun scope => s.declaredIn? scope name pos

/-- What a call refers to: the first method of the name, else, without a receiver, a variable. -/
def calleeFor? (node : NodeId) (name : String) (implicitThis : Bool) (pos : Position) :
    Option NodeId :=
  match s.declarations.methodsNamed name with
  | method :: _ => some method.node
  | [] => if implicitThis then s.variableFor? node name pos else none

/-- What a property refers to: a field of the class around it, else the first one of the name. -/
def propertyFor? (node : NodeId) (name : String) : Option NodeId :=
  ((s.declarations.fieldOf? (s.index.owner? node) name).or
    (s.declarations.fieldsNamed name).head?).map FieldDecl.node

/-- What the name of a class refers to: the first class of the name, else an import. -/
def classFor? (name : String) : Option NodeId :=
  match s.declarations.classesNamed name with
  | decl :: _ => some decl.node
  | [] => (s.declarations.importNamed? name).map ImportDecl.node

end Snapshot

namespace Lookup

/-- The declaring node that a node refers to within its document, for the kinds of nodes that refer
to something. The name of a declaration refers to itself. -/
def lexicalTarget? (l : Lookup) : Option (Option NodeId) :=
  if l.snapshot.index.declares l.entry then some (some l.entry.id)
  else
    match l.entry.kind with
    | .variableRef name => some (l.snapshot.variableFor? l.entry.id name l.position)
    | .call name _ implicitThis =>
      some (l.snapshot.calleeFor? l.entry.id name implicitThis l.position)
    | .propertyRef name _ => some (l.snapshot.propertyFor? l.entry.id name)
    | .classRef name | .constructorCall name _ => some (l.snapshot.classFor? name)
    | _ => none

/-- Resolves a node within its document. -/
def lexical (l : Lookup) : Outcome :=
  match l.lexicalTarget? with
  | some target => .ofOption (target.bind l.snapshot.definitionFor?)
  | none => .notApplicable

end Lookup

namespace Strategy

/-- Resolution within the document; its failure is final. -/
def lexical : Strategy := ⟨"lexical", true, Lookup.lexical⟩

end Strategy

end GroovyIndex
