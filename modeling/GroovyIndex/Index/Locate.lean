import GroovyIndex.Index

/-!
# Nodes by position

Of the outermost nodes with a place in the source, the last one that starts at or before the
position is the only candidate. Below it the tightest node that contains the position is followed,
level by level. Nodes without a place are transparent: those below them stand in for them.
-/

namespace GroovyIndex

namespace Node

mutual
/-- The outermost nodes of a tree that have a place in the source, with their ranges. -/
def placed : Node → List (Range × Node)
  | n@⟨_, _, some range, _⟩ => [(range, n)]
  | ⟨_, _, none, children⟩ => forestPlaced children
/-- The outermost nodes of a forest that have a place in the source, with their ranges. -/
def forestPlaced : Forest → List (Range × Node)
  | [] => []
  | n :: rest => n.placed ++ forestPlaced rest
end

end Node

/-- Of two finds the tighter one; the first stays when neither is tighter. -/
def tighterFind : Option (Range × Node) → Option (Range × Node) → Option (Range × Node)
  | none, other => other
  | some a, none => some a
  | some a, some b => if b.1.Tighter a.1 then some b else some a

namespace Node

mutual
/-- The way down through a tree: the range of its first step, and the node where it ends. -/
def find (pos : Position) : Node → Option (Range × Node)
  | n@⟨_, _, some range, children⟩ =>
    if range.contains pos then some (range, ((forestFind pos children).map Prod.snd).getD n)
    else none
  | ⟨_, _, none, children⟩ => forestFind pos children
/-- The way down through the tightest node of a forest. -/
def forestFind (pos : Position) : Forest → Option (Range × Node)
  | [] => none
  | n :: rest => tighterFind (n.find pos) (forestFind pos rest)
end

/-- The last node on the way down from a node through the tightest nodes around a position. -/
def innermost (pos : Position) (n : Node) : Node :=
  ((forestFind pos n.children).map Prod.snd).getD n

/-- A node with a place starts a way down exactly if it contains the position. -/
theorem find_of_range {n : Node} {range : Range} (h : n.range = some range) (pos : Position) :
    n.find pos = if range.contains pos then some (range, n.innermost pos) else none := by
  obtain ⟨id, kind, _, children⟩ := n
  subst h
  simp only [find, innermost]

/-- Without a place, what is below stands in. -/
theorem find_of_no_range {n : Node} (h : n.range = none) (pos : Position) :
    n.find pos = forestFind pos n.children := by
  obtain ⟨id, kind, _, children⟩ := n
  subst h
  simp only [find]

end Node

/-- Of the nodes that start at or before a position the one that starts last; of several
such the last. -/
def lastStarted? (pos : Position) : List (Range × Node) → Option (Range × Node)
  | [] => none
  | (range, n) :: rest =>
    match lastStarted? pos rest with
    | some (later, m) =>
      if range.start ≤ pos ∧ later.start < range.start then some (range, n) else some (later, m)
    | none => if range.start ≤ pos then some (range, n) else none

namespace Node

/-- The innermost node below a root at a position. -/
def locate? (root : Node) (pos : Position) : Option Node := do
  let (range, top) ← lastStarted? pos (forestPlaced root.children)
  if range.contains pos then some (top.innermost pos) else none

end Node

namespace Index

/-- The entry of the innermost node at a position. -/
def entryAt? (idx : Index) (pos : Position) : Option Entry := do
  let n ← idx.tree.locate? pos
  idx.get? n.id

end Index

end GroovyIndex
