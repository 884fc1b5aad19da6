import GroovyIndex.Index.Entry

/-!
# Index of a document

An index answers questions about the nodes of one document by their ids: what is above a node, what
is below it, which scopes and which class it stands in. An id that the document does not have has
nothing above or below it.
-/

namespace GroovyIndex

/-- A pruned tree together with its entries. -/
structure Index where
  tree : Node
  entries : List Entry
  entries_eq : entries = tree.entries []

namespace Index

/-- The index of a tree. -/
def ofTree (root : Node) : Index :=
  let tree := root.pruned
  ⟨tree, tree.entries [], rfl⟩

/-- The entry of the root. -/
def root (idx : Index) : Entry := idx.tree.entry []

/-- The number of nodes. -/
def size (idx : Index) : Nat := idx.entries.length

/-- The entry with the given id. -/
def get? (idx : Index) (id : NodeId) : Option Entry := idx.entries.find? (·.id == id)

/-- The nodes right below a node, in source order. -/
def children (idx : Index) (id : NodeId) : List Entry :=
  match idx.get? id with
  | some e => e.children.filterMap idx.get?
  | none => []

/-- The nodes above a node, innermost first. -/
def ancestors (idx : Index) (id : NodeId) : List Entry :=
  match idx.get? id with
  | some e => e.ancestors.filterMap idx.get?
  | none => []

/-- The node right above a node. -/
def parent? (idx : Index) (id : NodeId) : Option Entry := (idx.ancestors id).head?

/-- The scopes around a node, innermost first. -/
def scopes (idx : Index) (id : NodeId) : List Entry :=
  (idx.ancestors id).filter (·.kind.isScope)

/-- The nearest class around a node. -/
def enclosingClass? (idx : Index) (id : NodeId) : Option Entry :=
  (idx.ancestors id).find? (·.kind.isClass)

/-- The first node lies above the second. -/
def isAncestor (idx : Index) (above below : NodeId) : Bool :=
  (idx.ancestors below).any (·.id == above)

/-- The words for the kinds and the ranges, for a comparison of structure. -/
def shape (idx : Index) : List (String × Option Range) :=
  idx.entries.map fun e => (e.kind.label, e.range)

/-- The variable that a statement declares: its first child, if that names a variable. -/
def declaredVariable? (idx : Index) (statement : NodeId) : Option Entry :=
  (idx.children statement).head?.filter (·.kind.isVariableRef)

/-- The statement that declares the variable named at a node. -/
def declaringStatement? (idx : Index) (id : NodeId) : Option Entry :=
  (idx.parent? id).filter fun parent =>
    parent.kind.isDeclarationStatement && (idx.declaredVariable? parent.id).any (·.id == id)

/-- What makes the declaration whose name stands at a node: the node itself, or the statement
around a declared variable. -/
def declarer? (idx : Index) (e : Entry) : Option Entry :=
  if e.kind.isDeclaration then some e else idx.declaringStatement? e.id

/-- The name of a declaration stands at the node. -/
def declares (idx : Index) (e : Entry) : Bool := (idx.declarer? e).isSome

end Index

end GroovyIndex
