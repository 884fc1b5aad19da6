import GroovyIndex.Tree.Kind

/-!
# Syntax trees

A node owns its children, and nothing points back up. A node without a range has no place in the
source; position look-ups pass through it to the nodes below.
-/

namespace GroovyIndex

/-- A node of a syntax tree. -/
structure Node where
  id : NodeId
  kind : Kind
  range : Option Range
  children : List Node
  deriving Repr

/-- Trees side by side, in source order. -/
abbrev Forest := List Node

namespace Node

/-- Where the node starts, if it has a place in the source. -/
def start? (n : Node) : Option Position := n.range.map Range.start

mutual
/-- The number of nodes of a tree. -/
def size : Node → Nat
  | ⟨_, _, _, children⟩ => forestSize children + 1
/-- The number of nodes of a forest. -/
def forestSize : Forest → Nat
  | [] => 0
  | n :: rest => n.size + forestSize rest
end

mutual
/-- Every node of a tree, each before its children. -/
def preorder : Node → List Node
  | n@⟨_, _, _, children⟩ => n :: forestPreorder children
/-- Every node of a forest, each before its children. -/
def forestPreorder : Forest → List Node
  | [] => []
  | n :: rest => n.preorder ++ forestPreorder rest
end

end Node

end GroovyIndex
