import GroovyIndex.Signature
import GroovyIndex.Symbol

/-!
# Declarations

What is kept of each kind of declaration. Members know the class around them, variables the scope
that they belong to.
-/

namespace GroovyIndex

/-- A class. -/
structure ClassDecl where
  name : String
  node : NodeId
  synthetic : Bool
  range : Range
  nameRange : Range
  deriving DecidableEq, Repr

/-- A method or constructor. -/
structure MethodDecl where
  name : String
  node : NodeId
  /-- The class around the method; a method of the script has none. -/
  owner : Option NodeId
  parameters : List ParameterInfo
  returnType : Option String
  isConstructor : Bool
  range : Range
  nameRange : Range
  deriving DecidableEq, Repr

namespace MethodDecl

/-- What a caller needs to know of the method. -/
def signature (m : MethodDecl) : SignatureInfo := ⟨m.name, m.returnType, m.parameters⟩

/-- The method is a constructor of the class. -/
def constructs (m : MethodDecl) (owner : NodeId) : Bool :=
  m.isConstructor && m.owner == some owner

end MethodDecl

/-- A field or property. -/
structure FieldDecl where
  name : String
  node : NodeId
  /-- The class around the field; a field of the script has none. -/
  owner : Option NodeId
  typeName : Option String
  isProperty : Bool
  range : Range
  nameRange : Range
  deriving DecidableEq, Repr

/-- How a variable comes into being. -/
inductive VariableKind where
  | localVar
  | parameter
  deriving DecidableEq, Repr

/-- A local variable or a parameter. -/
structure VariableDecl where
  name : String
  /-- The declared identifier: the first child of a declaring statement, or the parameter. -/
  node : NodeId
  /-- The scope that the variable belongs to. -/
  scope : NodeId
  nameRange : Range
  typeName : Option String
  kind : VariableKind
  deriving DecidableEq, Repr

namespace VariableDecl

/-- Where the variable can be seen from on. -/
def declaredAt (v : VariableDecl) : Position := v.nameRange.start

end VariableDecl

/-- An import. -/
structure ImportDecl where
  path : String
  /-- The name under which source refers to the import. -/
  simpleName : String
  node : NodeId
  isStatic : Bool
  isStar : Bool
  range : Range
  deriving DecidableEq, Repr

end GroovyIndex
