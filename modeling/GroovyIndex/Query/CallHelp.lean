import GroovyIndex.Session

/-!
# Help at a call

The call around a position offers the signatures of what it calls: all methods of the name, or the
constructors of a class. The active parameter is the one behind the arguments that end before the
position.
-/

namespace GroovyIndex

namespace Index

/-- The innermost call at or around a node. -/
def enclosingCall? (idx : Index) (e : Entry) : Option Entry :=
  (e :: idx.ancestors e.id).find? (·.kind.isInvocation)

/-- The arguments of a call. -/
def arguments (idx : Index) (call : Entry) : List Entry :=
  match (idx.children call.id).find? (·.kind = .argumentList) with
  | some list => idx.children list.id
  | none => []

/-- The number of arguments of a call that end before a position. -/
def argumentsBefore (idx : Index) (call : Entry) (pos : Position) : Nat :=
  (idx.arguments call).countP fun arg => arg.range.any fun range => decide (range.stop < pos)

end Index

namespace Declarations

/-- The signatures offered for a method, constructor or class, and the one in front. A class without
a constructor has the empty signature. -/
def signaturesOf? (d : Declarations) (target : Definition) : Option (List SignatureInfo × Nat) :=
  match target.kind with
  | .method | .constructor =>
    let overloads := d.methodsNamed target.name
    let active := (overloads.findIdx? (·.node == target.node)).getD 0
    some (overloads.map MethodDecl.signature, active)
  | .classDecl =>
    match d.constructorsOf target.node with
    | [] => some ([⟨target.name, none, []⟩], 0)
    | constructors => some (constructors.map MethodDecl.signature, 0)
  | _ => none

end Declarations

namespace Session

variable (s : Session)

/-- The signatures offered at a position. -/
def signatureHelp (pos : Position) : Except QueryError SignatureHelp := do
  let e ← s.entryAt pos
  let some call := s.snapshot.index.enclosingCall? e | .error .nodeNotFound
  let target ← s.resolve call
  let some owning := s.snapshotOf? target | .error .nodeNotFound
  let some (signatures, active) := owning.declarations.signaturesOf? target
    | .error .unsupportedNodeKind
  let parameters := (signatures[active]?.map (·.parameters.length)).getD 0
  let before := s.snapshot.index.argumentsBefore call pos
  return ⟨signatures, active, min before (parameters - 1)⟩

end Session

end GroovyIndex
