import GroovyIndex.Source.Range

/-!
# Kinds of syntax nodes

A kind says what a node is and carries the names that the source spells out there. Declarations
keep the range of their identifier apart from the range of the node, so that an edit can reach the
name alone.
-/

namespace GroovyIndex

/-- The identity of a node within its document. -/
structure NodeId where
  val : Nat
  deriving DecidableEq, Repr, Hashable

instance : ToString NodeId := ⟨fun id => s!"#{id.val}"⟩

/-- The literals of the language. -/
inductive Literal where
  | string
  | gstring
  | number
  | boolean
  | null
  deriving DecidableEq, Repr

/-- What a syntax node is. -/
inductive Kind where
  /-- The root of a document. -/
  | moduleRoot
  /-- A class; `synthetic` ones are made by the compiler, such as the class of a script. -/
  | classDecl (name : String) (nameRange : Option Range) (synthetic : Bool)
  /-- A method or constructor. Children: the parameters, then the body. -/
  | methodDecl (name : String) (nameRange : Option Range) (returnType : Option String)
      (isConstructor : Bool)
  | fieldDecl (name : String) (nameRange : Option Range) (typeName : Option String)
  | propertyDecl (name : String) (nameRange : Option Range) (typeName : Option String)
  | parameter (name : String) (nameRange : Option Range) (typeName : Option String)
      (hasDefault : Bool)
  | importDecl (path : String) (asName : Option String) (isStatic isStar : Bool)
  /-- A statement such as `def x = 1`. The first child is the declared variable. -/
  | declaration (typeName : Option String)
  | block
  /-- A closure. Children: the parameters, then the body. -/
  | closure
  | variableRef (name : String)
  /-- A member such as `obj.name`. The child is the object. -/
  | propertyRef (name : String) (nameRange : Option Range)
  /-- A call. Children: the receiver unless `this` is implied, then the arguments. -/
  | call (name : String) (nameRange : Option Range) (implicitThis : Bool)
  /-- An instance creation. The child is the argument list. -/
  | constructorCall (typeName : String) (nameRange : Option Range)
  | argumentList
  | classRef (name : String)
  | literal (kind : Literal)
  | binary (op : String)
  | expressionStatement
  | ifStatement
  | whileLoop
  /-- A loop such as `for (x in xs)`. Children: the loop parameter, the collection, the body. -/
  | forLoop
  | returnStatement
  /-- A stand-in left by error recovery. -/
  | recovered
  deriving DecidableEq, Repr

namespace Kind

/-- The name that the node spells out; an import is named by its alias, else by its whole path. -/
def name? : Kind → Option String
  | classDecl name _ _ | methodDecl name _ _ _ | fieldDecl name _ _ | propertyDecl name _ _
  | parameter name _ _ _ | variableRef name | propertyRef name _ | call name _ _
  | classRef name => some name
  | constructorCall typeName _ => some typeName
  | importDecl path asName _ _ => some (asName.getD path)
  | _ => none

/-- The text behind the last dot of a path. -/
def lastSegment (path : String) : String :=
  String.ofList (path.toList.reverse.takeWhile (· != '.')).reverse

/-- The name under which source refers to what the node declares; an import without an alias goes
by the last segment of its path. -/
def declaredName? : Kind → Option String
  | importDecl path asName _ _ => some (asName.getD (lastSegment path))
  | kind => kind.name?

/-- The type that a declaration spells out; of a method, what it returns. -/
def declaredType? : Kind → Option String
  | methodDecl _ _ type _ | fieldDecl _ _ type | propertyDecl _ _ type | parameter _ _ type _
  | declaration type => type
  | _ => none

/-- The range of the identifier, where the kind keeps one. -/
def nameRange? : Kind → Option Range
  | classDecl _ range _ | methodDecl _ range _ _ | fieldDecl _ range _ | propertyDecl _ range _
  | parameter _ range _ _ | propertyRef _ range | call _ range _
  | constructorCall _ range => range
  | _ => none

/-- The node itself introduces a named symbol. -/
def isDeclaration : Kind → Bool
  | classDecl .. | methodDecl .. | fieldDecl .. | propertyDecl .. | parameter ..
  | importDecl .. => true
  | _ => false

/-- The node opens a lexical scope. -/
def isScope : Kind → Bool
  | moduleRoot | classDecl .. | methodDecl .. | block | closure | forLoop => true
  | _ => false

/-- The node is a class. -/
def isClass : Kind → Bool
  | classDecl .. => true
  | _ => false

/-- The node is a statement that declares a variable. -/
def isDeclarationStatement : Kind → Bool
  | declaration .. => true
  | _ => false

/-- The node names a variable. -/
def isVariableRef : Kind → Bool
  | variableRef .. => true
  | _ => false

/-- The node calls a method or creates an instance. -/
def isInvocation : Kind → Bool
  | call .. | constructorCall .. => true
  | _ => false

/-- A short word for the kind. -/
def label : Kind → String
  | moduleRoot => "module"
  | classDecl .. => "class"
  | methodDecl .. => "method"
  | fieldDecl .. => "field"
  | propertyDecl .. => "property"
  | parameter .. => "parameter"
  | importDecl .. => "import"
  | declaration .. => "declaration"
  | block => "block"
  | closure => "closure"
  | variableRef .. => "variable"
  | propertyRef .. => "property-ref"
  | call .. => "call"
  | constructorCall .. => "constructor-call"
  | argumentList => "arguments"
  | classRef .. => "class-ref"
  | literal .. => "literal"
  | binary .. => "binary"
  | expressionStatement => "expression"
  | ifStatement => "if"
  | whileLoop => "while"
  | forLoop => "for"
  | returnStatement => "return"
  | recovered => "error"

end Kind

end GroovyIndex
