import GroovyIndex.Tree.Node

/-!
# Index entries

An index lists a tree in pre-order, one entry a node; an entry names its children and the nodes
above. What is listed is the *pruned* tree: no range is inverted, and of two nodes with one id the
first in pre-order stays, while the other is dropped with everything below it.
-/

namespace GroovyIndex

/-- A node as the index lists it. -/
structure Entry where
  id : NodeId
  kind : Kind
  range : Option Range
  children : List NodeId
  /-- The nodes above, innermost first. -/
  ancestors : List NodeId
  deriving DecidableEq, Repr

namespace Entry

/-- The name that the node spells out. -/
def name? (e : Entry) : Option String := e.kind.name?

/-- The range of the identifier, else of the whole node. -/
def nameRange? (e : Entry) : Option Range := e.kind.nameRange? <|> e.range

/-- Where the node starts, if it has a place in the source. -/
def start? (e : Entry) : Option Position := e.range.map Range.start

/-- The node has a place in the source, and the position is in it. -/
def contains (e : Entry) (pos : Position) : Bool := e.range.any (·.contains pos)

/-- The number of nodes above. -/
def depth (e : Entry) : Nat := e.ancestors.length

theorem contains_iff {e : Entry} {pos : Position} :
    e.contains pos = true ↔ ∃ r ∈ e.range, r.contains pos = true :=
  Option.any_eq_true _ _

end Entry

namespace Node

mutual
/-- A tree less the nodes whose ids are taken, with the ids that are taken then. -/
def prune (taken : List NodeId) : Node → Option Node × List NodeId
  | ⟨id, kind, range, children⟩ =>
    if id ∈ taken then (none, taken)
    else
      let (kept, taken) := forestPrune (id :: taken) children
      (some ⟨id, kind, range.filter (!·.isInverted), kept⟩, taken)
/-- A forest less the nodes whose ids are taken, with the ids that are taken then. -/
def forestPrune (taken : List NodeId) : Forest → Forest × List NodeId
  | [] => ([], taken)
  | n :: rest =>
    let (kept, taken) := n.prune taken
    let (others, taken) := forestPrune taken rest
    (kept.toList ++ others, taken)
end

/-- The tree that an index lists. -/
def pruned (root : Node) : Node :=
  ⟨root.id, root.kind, root.range.filter (!·.isInverted), (forestPrune [root.id] root.children).1⟩

/-- The entry of a node below the given ones. -/
def entry (above : List NodeId) (n : Node) : Entry :=
  ⟨n.id, n.kind, n.range, n.children.map Node.id, above⟩

mutual
/-- The entries of a tree below the given nodes, in pre-order. -/
def entries (above : List NodeId) : Node → List Entry
  | n@⟨id, _, _, children⟩ => n.entry above :: forestEntries (id :: above) children
/-- The entries of a forest below the given nodes, in pre-order. -/
def forestEntries (above : List NodeId) : Forest → List Entry
  | [] => []
  | n :: rest => n.entries above ++ forestEntries above rest
end

/-- The root is never dropped. -/
theorem prune_nil (root : Node) : (root.prune []).1 = some root.pruned := by
  cases root
  simp [prune, pruned]

end Node

end GroovyIndex
