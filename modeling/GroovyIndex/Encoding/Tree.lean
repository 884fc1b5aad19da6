import GroovyIndex.Encoding.Source
import GroovyIndex.Tree.Parsed

/-!
# JSON form of trees

A kind without parts is written as its name. A kind with parts is an object with one field, named
for the kind, that holds a record of the parts.
-/

namespace GroovyIndex

namespace Literal

/-- The written name of a kind of literal. -/
def text : Literal → String
  | string => "String"
  | gstring => "GString"
  | number => "Number"
  | boolean => "Boolean"
  | null => "Null"

/-- The kind of literal that a name stands for. -/
def ofText? : String → Option Literal
  | "String" => some string
  | "GString" => some gstring
  | "Number" => some number
  | "Boolean" => some boolean
  | "Null" => some null
  | _ => none

end Literal

instance : Codec Literal where
  encode kind := .ofString kind.text
  decode? levels j := (j.choice? levels).bind Literal.ofText?

namespace Kind

/-- A kind with parts. -/
private def tagged (tag : String) (parts : List (String × Json)) : Json :=
  .ofFields [(tag, .ofFields parts)]

/-- The JSON form of a kind. -/
def toJson : Kind → Json
  | moduleRoot => .ofString "Module"
  | classDecl name nameRange synthetic => tagged "ClassDecl" [
    ("name", encode name), ("name_range", encode nameRange), ("synthetic", encode synthetic)]
  | methodDecl name nameRange returnType isConstructor => tagged "MethodDecl" [
    ("name", encode name), ("name_range", encode nameRange),
    ("return_type", encode returnType), ("is_constructor", encode isConstructor)]
  | fieldDecl name nameRange typeName => tagged "FieldDecl" [
    ("name", encode name), ("name_range", encode nameRange), ("type_name", encode typeName)]
  | propertyDecl name nameRange typeName => tagged "PropertyDecl" [
    ("name", encode name), ("name_range", encode nameRange), ("type_name", encode typeName)]
  | parameter name nameRange typeName hasDefault => tagged "Parameter" [
    ("name", encode name), ("name_range", encode nameRange), ("type_name", encode typeName),
    ("has_default", encode hasDefault)]
  | importDecl path asName isStatic isStar => tagged "Import" [
    ("path", encode path), ("alias", encode asName), ("is_static", encode isStatic),
    ("is_star", encode isStar)]
  | declaration typeName => tagged "Declaration" [("type_name", encode typeName)]
  | block => .ofString "Block"
  | closure => .ofString "Closure"
  | variableRef name => tagged "VariableRef" [("name", encode name)]
  | propertyRef name nameRange => tagged "PropertyRef" [
    ("name", encode name), ("name_range", encode nameRange)]
  | call name nameRange implicitThis => tagged "Call" [
    ("name", encode name), ("name_range", encode nameRange),
    ("implicit_this", encode implicitThis)]
  | constructorCall typeName nameRange => tagged "ConstructorCall" [
    ("type_name", encode typeName), ("name_range", encode nameRange)]
  | argumentList => .ofString "ArgumentList"
  | classRef name => tagged "ClassRef" [("name", encode name)]
  | literal kind => tagged "Literal" [("kind", encode kind)]
  | binary op => tagged "Binary" [("op", encode op)]
  | expressionStatement => .ofString "ExpressionStatement"
  | ifStatement => .ofString "If"
  | whileLoop => .ofString "While"
  | forLoop => .ofString "For"
  | returnStatement => .ofString "Return"
  | recovered => .ofString "Error"

/-- The kind without parts that a name stands for. -/
def plain? : String → Option Kind
  | "Module" => some moduleRoot
  | "Block" => some block
  | "Closure" => some closure
  | "ArgumentList" => some argumentList
  | "ExpressionStatement" => some expressionStatement
  | "If" => some ifStatement
  | "While" => some whileLoop
  | "For" => some forLoop
  | "Return" => some returnStatement
  | "Error" => some recovered
  | _ => none

/-- The kind with parts that a name and a record of the parts stand for. -/
def withParts? (levels : Nat) (tag : String) (j : Json) : Option Kind :=
  match tag with
  | "ClassDecl" => do
    let (levels, [name, nameRange, synthetic]) ←
      j.record? ["name", "name_range", "synthetic"] levels | none
    return .classDecl (← Json.required levels name) (← Json.optional levels nameRange)
      (← Json.required levels synthetic)
  | "MethodDecl" => do
    let (levels, [name, nameRange, returnType, isConstructor]) ←
      j.record? ["name", "name_range", "return_type", "is_constructor"] levels | none
    return .methodDecl (← Json.required levels name) (← Json.optional levels nameRange)
      (← Json.optional levels returnType) (← Json.required levels isConstructor)
  | "FieldDecl" => do
    let (levels, [name, nameRange, typeName]) ←
      j.record? ["name", "name_range", "type_name"] levels | none
    return .fieldDecl (← Json.required levels name) (← Json.optional levels nameRange)
      (← Json.optional levels typeName)
  | "PropertyDecl" => do
    let (levels, [name, nameRange, typeName]) ←
      j.record? ["name", "name_range", "type_name"] levels | none
    return .propertyDecl (← Json.required levels name) (← Json.optional levels nameRange)
      (← Json.optional levels typeName)
  | "Parameter" => do
    let (levels, [name, nameRange, typeName, hasDefault]) ←
      j.record? ["name", "name_range", "type_name", "has_default"] levels | none
    return .parameter (← Json.required levels name) (← Json.optional levels nameRange)
      (← Json.optional levels typeName) (← Json.required levels hasDefault)
  | "Import" => do
    let (levels, [path, asName, isStatic, isStar]) ←
      j.record? ["path", "alias", "is_static", "is_star"] levels | none
    return .importDecl (← Json.required levels path) (← Json.optional levels asName)
      (← Json.required levels isStatic) (← Json.required levels isStar)
  | "Declaration" => do
    let (levels, [typeName]) ← j.record? ["type_name"] levels | none
    return .declaration (← Json.optional levels typeName)
  | "VariableRef" => do
    let (levels, [name]) ← j.record? ["name"] levels | none
    return .variableRef (← Json.required levels name)
  | "PropertyRef" => do
    let (levels, [name, nameRange]) ← j.record? ["name", "name_range"] levels | none
    return .propertyRef (← Json.required levels name) (← Json.optional levels nameRange)
  | "Call" => do
    let (levels, [name, nameRange, implicitThis]) ←
      j.record? ["name", "name_range", "implicit_this"] levels | none
    return .call (← Json.required levels name) (← Json.optional levels nameRange)
      (← Json.required levels implicitThis)
  | "ConstructorCall" => do
    let (levels, [typeName, nameRange]) ← j.record? ["type_name", "name_range"] levels | none
    return .constructorCall (← Json.required levels typeName) (← Json.optional levels nameRange)
  | "ClassRef" => do
    let (levels, [name]) ← j.record? ["name"] levels | none
    return .classRef (← Json.required levels name)
  | "Literal" => do
    let (levels, [kind]) ← j.record? ["kind"] levels | none
    return .literal (← Json.required levels kind)
  | "Binary" => do
    let (levels, [op]) ← j.record? ["op"] levels | none
    return .binary (← Json.required levels op)
  | _ => none

/-- Reads a kind. The object around a kind with parts opens a level of its own. -/
def ofJson? : Nat → Json → Option Kind
  | _, .string (some name) => plain? name
  | _ + 1, .object [(some name, .null)] => plain? name
  | levels + 1, .object [(some name, parts)] => withParts? levels name parts
  | _, _ => none

end Kind

instance : Codec Kind where
  encode := Kind.toJson
  decode? := Kind.ofJson?

namespace Node

mutual
/-- The JSON form of a tree. -/
def toJson : Node → Json
  | ⟨id, kind, range, children⟩ => .ofFields [
    ("id", encode id), ("kind", encode kind), ("range", encode range),
    ("children", .array (forestToJson children))]
/-- The JSON forms of trees side by side. -/
def forestToJson : Forest → List Json
  | [] => []
  | n :: rest => n.toJson :: forestToJson rest
end

/-- Reads a tree; a node opens one level, and the list of its children another. -/
def ofJson? : Nat → Json → Option Node
  | levels + 2, j => do
    let (_, [id, kind, range, some (.array children)]) ←
      j.record? ["id", "kind", "range", "children"] (levels + 2) | none
    return {
      id := ← Json.required (levels + 1) id
      kind := ← Json.required (levels + 1) kind
      range := ← Json.optional (levels + 1) range
      children := ← children.mapM (ofJson? levels) }
  | _, _ => none

end Node

instance : Codec Node where
  encode := Node.toJson
  decode? := Node.ofJson?

namespace Severity

/-- The written name of a severity. -/
def text : Severity → String
  | error => "Error"
  | warning => "Warning"
  | information => "Information"
  | hint => "Hint"

/-- The severity that a name stands for. -/
def ofText? : String → Option Severity
  | "Error" => some error
  | "Warning" => some warning
  | "Information" => some information
  | "Hint" => some hint
  | _ => none

end Severity

instance : Codec Severity where
  encode severity := .ofString severity.text
  decode? levels j := (j.choice? levels).bind Severity.ofText?

instance : Codec Diagnostic where
  encode d := .ofFields [
    ("range", encode d.range), ("severity", encode d.severity), ("message", encode d.message)]
  decode? levels j := do
    let (levels, [range, severity, message]) ←
      j.record? ["range", "severity", "message"] levels | none
    return ⟨← Json.optional levels range, ← Json.required levels severity,
      ← Json.required levels message⟩

namespace CompilePhase

/-- The written name of a phase. -/
def text : CompilePhase → String
  | initialization => "Initialization"
  | parsing => "Parsing"
  | conversion => "Conversion"
  | semanticAnalysis => "SemanticAnalysis"
  | canonicalization => "Canonicalization"

/-- The phase that a name stands for. -/
def ofText? : String → Option CompilePhase
  | "Initialization" => some initialization
  | "Parsing" => some parsing
  | "Conversion" => some conversion
  | "SemanticAnalysis" => some semanticAnalysis
  | "Canonicalization" => some canonicalization
  | _ => none

end CompilePhase

instance : Codec CompilePhase where
  encode phase := .ofString phase.text
  decode? levels j := (j.choice? levels).bind CompilePhase.ofText?

/-- A version is a signed number of 32 bits. -/
def Json.version? : Json → Option Int
  | .integer v => if -0x80000000 ≤ v ∧ v < 0x80000000 then some v else none
  | _ => none

instance : Codec Document where
  encode d := .ofFields [("uri", encode d.uri), ("version", .integer d.version)]
  decode? levels j := do
    let (levels, [uri, version]) ← j.record? ["uri", "version"] levels | none
    return ⟨← Json.required levels uri, ← version.bind Json.version?⟩

instance : Codec ParsedModule where
  encode m := .ofFields [
    ("document", encode m.document), ("root", encode m.root),
    ("diagnostics", encode m.diagnostics), ("phase", encode m.phase)]
  decode? levels j := do
    let (levels, [document, root, diagnostics, phase]) ←
      j.record? ["document", "root", "diagnostics", "phase"] levels | none
    return ⟨← Json.required levels document, ← Json.required levels root,
      ← Json.required levels diagnostics, ← Json.required levels phase⟩

end GroovyIndex
