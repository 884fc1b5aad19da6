import GroovyIndex.Tree.Node

/-!
# Building trees

Parsers make their nodes here, so that every node of a document gets an identity of its own without
a counter being passed around by hand. Identities are handed out in the order in which nodes are
made, from zero. The counter is a word of 32 bits.
-/

namespace GroovyIndex

/-- A construction that takes fresh identities from a counter. -/
abbrev Build := StateM UInt32

namespace Build

/-- Takes the next identity. -/
def fresh : Build NodeId := fun next => (⟨next.toNat⟩, next + 1)

/-- A node with the given children. -/
def branch (kind : Kind) (range : Option Range) (children : List Node) : Build Node := do
  let id ← fresh
  return ⟨id, kind, range, children⟩

/-- A node without children. -/
def leaf (kind : Kind) (range : Option Range) : Build Node := branch kind range []

/-- The root of a document. -/
def moduleRoot (range : Option Range) (statements : List Node) : Build Node :=
  branch .moduleRoot range statements

def variableRef (name : String) (range : Range) : Build Node :=
  leaf (.variableRef name) (some range)

def classRef (name : String) (range : Range) : Build Node :=
  leaf (.classRef name) (some range)

def literal (kind : Literal) (range : Range) : Build Node :=
  leaf (.literal kind) (some range)

/-- A statement such as `def name = init`; `nameRange` covers the identifier. -/
def declaration (name : String) (nameRange range : Range) (typeName : Option String)
    (init : Option Node) : Build Node := do
  let target ← variableRef name nameRange
  branch (.declaration typeName) (some range) (target :: init.toList)

def parameter (name : String) (range : Range) (typeName : Option String) : Build Node :=
  leaf (.parameter name (some range) typeName false) (some range)

def block (range : Range) (statements : List Node) : Build Node :=
  branch .block (some range) statements

def method (name : String) (nameRange range : Range) (returnType : Option String)
    (parameters : List Node) (body : Node) : Build Node :=
  branch (.methodDecl name (some nameRange) returnType false) (some range) (parameters ++ [body])

def constructor (name : String) (nameRange range : Range) (parameters : List Node)
    (body : Node) : Build Node :=
  branch (.methodDecl name (some nameRange) none true) (some range) (parameters ++ [body])

def classDecl (name : String) (nameRange range : Range) (members : List Node) : Build Node :=
  branch (.classDecl name (some nameRange) false) (some range) members

def field (name : String) (nameRange range : Range) (typeName : Option String)
    (init : Option Node) : Build Node :=
  branch (.fieldDecl name (some nameRange) typeName) (some range) init.toList

def property (name : String) (nameRange range : Range) (typeName : Option String) : Build Node :=
  leaf (.propertyDecl name (some nameRange) typeName) (some range)

/-- A call `name(args)`, or `receiver.name(args)`; `argsRange` spans the parentheses. -/
def call (name : String) (nameRange range : Range) (receiver : Option Node) (argsRange : Range)
    (args : List Node) : Build Node := do
  let arguments ← branch .argumentList (some argsRange) args
  branch (.call name (some nameRange) receiver.isNone) (some range)
    (receiver.toList ++ [arguments])

def propertyRef (name : String) (nameRange range : Range) (object : Node) : Build Node :=
  branch (.propertyRef name (some nameRange)) (some range) [object]

/-- An expression used as a statement; it covers exactly the expression. -/
def statement (expression : Node) : Build Node :=
  branch .expressionStatement expression.range [expression]

end Build

end GroovyIndex
