import GroovyIndex.Json.Codec
import GroovyIndex.Symbol

/-!
# JSON form of positions, symbols and occurrences
-/

namespace GroovyIndex

instance : Codec Position where
  encode p := .ofFields [("line", encode p.line), ("col", encode p.col)]
  decode? levels j := do
    let (levels, [line, col]) ← j.record? ["line", "col"] levels | none
    return ⟨← Json.required levels line, ← Json.required levels col⟩

/-- A range is written as its four numbers. -/
instance : Codec Range where
  encode r := .ofFields [
    ("start_line", encode r.start.line), ("start_col", encode r.start.col),
    ("end_line", encode r.stop.line), ("end_col", encode r.stop.col)]
  decode? levels j := do
    let (levels, [startLine, startCol, stopLine, stopCol]) ←
      j.record? ["start_line", "start_col", "end_line", "end_col"] levels | none
    return .ofCorners (← Json.required levels startLine) (← Json.required levels startCol)
      (← Json.required levels stopLine) (← Json.required levels stopCol)

/-- Node identities have 32 bits. -/
instance : Codec NodeId where
  encode id := .integer id.val
  decode? _ j := (j.natBelow? UInt32.size).map NodeId.mk

instance : Codec Uri where
  encode uri := .ofString uri.text
  decode?
    | _, .string text => text.bind Uri.ofText?
    | _, _ => none

namespace SymbolKind

/-- The written name of a kind of symbol. -/
def text : SymbolKind → String
  | classDecl => "class"
  | method => "method"
  | constructor => "constructor"
  | field => "field"
  | property => "property"
  | localVar => "variable"
  | parameter => "parameter"
  | importDecl => "import"

/-- The kind of symbol that a name stands for. -/
def ofText? : String → Option SymbolKind
  | "class" => some classDecl
  | "method" => some method
  | "constructor" => some constructor
  | "field" => some field
  | "property" => some property
  | "variable" => some localVar
  | "parameter" => some parameter
  | "import" => some importDecl
  | _ => none

end SymbolKind

instance : Codec SymbolKind where
  encode kind := .ofString kind.text
  decode? levels j := (j.choice? levels).bind SymbolKind.ofText?

instance : Codec Location where
  encode l := .ofFields [("uri", encode l.uri), ("range", encode l.range)]
  decode? levels j := do
    let (levels, [uri, range]) ← j.record? ["uri", "range"] levels | none
    return ⟨← Json.required levels uri, ← Json.required levels range⟩

instance : Codec Definition where
  encode d := .ofFields [
    ("uri", encode d.uri), ("node", encode d.node), ("name", encode d.name),
    ("kind", encode d.kind), ("range", encode d.range),
    ("selection_range", encode d.selectionRange), ("type_name", encode d.typeName),
    ("owner", encode d.owner)]
  decode? levels j := do
    let (levels, [uri, node, name, kind, range, selectionRange, typeName, owner]) ←
      j.record? ["uri", "node", "name", "kind", "range", "selection_range", "type_name", "owner"]
        levels | none
    return {
      uri := ← Json.required levels uri
      node := ← Json.required levels node
      name := ← Json.required levels name
      kind := ← Json.required levels kind
      range := ← Json.required levels range
      selectionRange := ← Json.required levels selectionRange
      typeName := ← Json.optional levels typeName
      owner := ← Json.optional levels owner }

instance : Codec Reference where
  encode r := .ofFields [
    ("location", encode r.location), ("is_declaration", encode r.isDeclaration)]
  decode? levels j := do
    let (levels, [location, isDeclaration]) ←
      j.record? ["location", "is_declaration"] levels | none
    return ⟨← Json.required levels location, ← Json.required levels isDeclaration⟩

namespace HighlightKind

/-- The written name of what happens at an occurrence. -/
def text : HighlightKind → String
  | read => "Read"
  | write => "Write"

/-- What happens at an occurrence, by name. -/
def ofText? : String → Option HighlightKind
  | "Read" => some read
  | "Write" => some write
  | _ => none

end HighlightKind

instance : Codec HighlightKind where
  encode kind := .ofString kind.text
  decode? levels j := (j.choice? levels).bind HighlightKind.ofText?

instance : Codec Highlight where
  encode h := .ofFields [("range", encode h.range), ("kind", encode h.kind)]
  decode? levels j := do
    let (levels, [range, kind]) ← j.record? ["range", "kind"] levels | none
    return ⟨← Json.required levels range, ← Json.required levels kind⟩

namespace OutlineSymbol

mutual
/-- An outline symbol with the symbols below it. -/
def toJson : OutlineSymbol → Json
  | ⟨name, kind, detail, range, selectionRange, children⟩ => .ofFields [
    ("name", encode name), ("kind", encode kind), ("detail", encode detail),
    ("range", encode range), ("selection_range", encode selectionRange),
    ("children", .array (toJsonAll children))]
/-- Outline symbols side by side. -/
def toJsonAll : List OutlineSymbol → List Json
  | [] => []
  | symbol :: rest => symbol.toJson :: toJsonAll rest
end

/-- Reads an outline symbol; a symbol opens one level, and the list of its children another. -/
def ofJson? : Nat → Json → Option OutlineSymbol
  | levels + 2, j => do
    let (_, [name, kind, detail, range, selectionRange, some (.array children)]) ←
      j.record? ["name", "kind", "detail", "range", "selection_range", "children"] (levels + 2)
      | none
    return {
      name := ← Json.required (levels + 1) name
      kind := ← Json.required (levels + 1) kind
      detail := ← Json.optional (levels + 1) detail
      range := ← Json.required (levels + 1) range
      selectionRange := ← Json.required (levels + 1) selectionRange
      children := ← children.mapM (ofJson? levels) }
  | _, _ => none

end OutlineSymbol

instance : Codec OutlineSymbol where
  encode := OutlineSymbol.toJson
  decode? := OutlineSymbol.ofJson?

end GroovyIndex
