import GroovyIndex.Snapshot

/-!
# Outline of a document

Classes with their members, and what the script itself declares, in source order. A synthetic class
has no symbol of its own: its members stand in its place, as those of the script. So do the nodes
below a node without a place in the source.
-/

namespace GroovyIndex

namespace Kind

/-- The range of the identifier, else the range of the node. -/
def selectionRange (kind : Kind) (range : Range) : Range := kind.nameRange?.getD range

end Kind

namespace Node

/-- The symbol of the variable that a statement of the script declares. -/
def variableSymbol? (typeName : Option String) (range : Range) (children : Forest) :
    Option OutlineSymbol :=
  match children.head? with
  | some ⟨_, .variableRef name, some nameRange, _⟩ =>
    some ⟨name, .localVar, typeName, range, nameRange, []⟩
  | _ => none

mutual
/-- The symbols of a tree; `script` tells that the script's own variables are listed here. -/
def outline (d : Declarations) (script : Bool) : Node → List OutlineSymbol
  | ⟨_, _, none, children⟩ => forestOutline d script children
  | ⟨id, kind, some range, children⟩ =>
    let symbol (name : String) (symbolKind : SymbolKind) (detail : Option String)
        (below : List OutlineSymbol) : OutlineSymbol :=
      ⟨name, symbolKind, detail, range, kind.selectionRange range, below⟩
    match kind with
    | .classDecl name _ synthetic =>
      if synthetic then forestOutline d true children
      else [symbol name .classDecl none (forestOutline d false children)]
    | .methodDecl name _ _ isConstructor =>
      let label := (d.methodAt? id).map (·.signature.label)
      [symbol name (if isConstructor then .constructor else .method) label []]
    | .fieldDecl name _ typeName => [symbol name .field typeName []]
    | .propertyDecl name _ typeName => [symbol name .property typeName []]
    | .declaration typeName =>
      if script then (variableSymbol? typeName range children).toList else []
    | _ => []
/-- The symbols of a forest. -/
def forestOutline (d : Declarations) (script : Bool) : Forest → List OutlineSymbol
  | [] => []
  | n :: rest => n.outline d script ++ forestOutline d script rest
end

end Node

namespace Snapshot

/-- The outline of the document. -/
def outline (s : Snapshot) : List OutlineSymbol :=
  Node.forestOutline s.declarations true s.index.tree.children

end Snapshot

end GroovyIndex
