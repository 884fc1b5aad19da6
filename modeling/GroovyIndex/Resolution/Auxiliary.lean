import GroovyIndex.Resolution.Lexical

/-!
# Resolution in auxiliary documents

The strategy for calls and class names that their own document does not declare. It looks for them
in the auxiliary documents, in order, and leaves everything else to the next strategy.
-/

namespace GroovyIndex

namespace Snapshot

/-- The definition of the first method of a name. -/
def methodDefinition? (s : Snapshot) (name : String) : Option Definition :=
  (s.declarations.methodsNamed name).head?.bind fun method => s.definitionFor? method.node

/-- The definition of the first class of a name. -/
def classDefinition? (s : Snapshot) (name : String) : Option Definition :=
  (s.declarations.classesNamed name).head?.bind fun decl => s.definitionFor? decl.node

/-- A call can be resolved to a method or, without a receiver, to a variable of its document. -/
def ownsCall (s : Snapshot) (node : NodeId) (name : String) (implicitThis : Bool)
    (pos : Position) : Bool :=
  !(s.declarations.methodsNamed name).isEmpty ||
    implicitThis && (s.declarations.visibleVariable? s.index name node pos).isSome

/-- A class of the name is declared in the document. -/
def ownsClass (s : Snapshot) (name : String) : Bool :=
  !(s.declarations.classesNamed name).isEmpty

end Snapshot

namespace Lookup

/-- Resolves a node in the auxiliary documents. -/
def elsewhere (l : Lookup) : Outcome :=
  if l.auxiliary.isEmpty then .notApplicable
  else
    match l.entry.kind with
    | .call name _ implicitThis =>
      if l.snapshot.ownsCall l.entry.id name implicitThis l.position then .notApplicable
      else .ofOption (l.auxiliary.findSome? (·.methodDefinition? name))
    | .classRef name | .constructorCall name _ =>
      if l.snapshot.ownsClass name then .notApplicable
      else .ofOption (l.auxiliary.findSome? (·.classDefinition? name))
    | _ => .notApplicable

end Lookup

namespace Strategy

/-- Resolution in the auxiliary documents. -/
def auxiliary : Strategy := ⟨"auxiliary", false, Lookup.elsewhere⟩

end Strategy

namespace Chain

/-- The auxiliary documents first, then the document itself. -/
def standard : Chain := ⟨[.auxiliary, .lexical]⟩

end Chain

end GroovyIndex
