import GroovyIndex.Declarations.Record
import GroovyIndex.Grouping
import GroovyIndex.Index

/-!
# Declarations of a document

The declarations of one document, each list in source order. Only a declaration with a place in the
source is listed. Some listings put members together: classes by name, the fields of a name by
class. Of the imports of one name only the first counts, and imports of whole packages have no name.
-/

namespace GroovyIndex

namespace Entry

/-- The parameter that an entry is. -/
def parameterInfo? (e : Entry) : Option ParameterInfo :=
  match e.kind with
  | .parameter name _ typeName hasDefault => some ⟨name, typeName, hasDefault⟩
  | _ => none

/-- The class that an entry declares. -/
def classDecl? (e : Entry) : Option ClassDecl := do
  let range ← e.range
  match e.kind with
  | .classDecl name nameRange synthetic =>
    some ⟨name, e.id, synthetic, range, nameRange.getD range⟩
  | _ => none

/-- The import that an entry declares. -/
def importDecl? (e : Entry) : Option ImportDecl := do
  let range ← e.range
  match e.kind with
  | .importDecl path asName isStatic isStar =>
    some ⟨path, asName.getD (Kind.lastSegment path), e.id, isStatic, isStar, range⟩
  | _ => none

end Entry

namespace Index

/-- The class around a node, by its id. -/
def owner? (idx : Index) (id : NodeId) : Option NodeId := (idx.enclosingClass? id).map Entry.id

/-- The method that an entry declares. -/
def methodDecl? (idx : Index) (e : Entry) : Option MethodDecl := do
  let range ← e.range
  match e.kind with
  | .methodDecl name nameRange returnType isConstructor =>
    some ⟨name, e.id, idx.owner? e.id, (idx.children e.id).filterMap Entry.parameterInfo?,
      returnType, isConstructor, range, nameRange.getD range⟩
  | _ => none

/-- The field or property that an entry declares. -/
def fieldDecl? (idx : Index) (e : Entry) : Option FieldDecl := do
  let range ← e.range
  match e.kind with
  | .fieldDecl name nameRange typeName =>
    some ⟨name, e.id, idx.owner? e.id, typeName, false, range, nameRange.getD range⟩
  | .propertyDecl name nameRange typeName =>
    some ⟨name, e.id, idx.owner? e.id, typeName, true, range, nameRange.getD range⟩
  | _ => none

/-- The variable that an entry declares: a parameter, or the variable of a statement. -/
def variableDecl? (idx : Index) (e : Entry) : Option VariableDecl := do
  let range ← e.range
  match e.kind with
  | .parameter name nameRange typeName _ =>
    let scope ← (idx.scopes e.id).head?
    some ⟨name, e.id, scope.id, nameRange.getD range, typeName, .parameter⟩
  | .declaration typeName =>
    let target ← idx.declaredVariable? e.id
    let name ← target.name?
    let nameRange ← target.range
    let scope ← (idx.scopes e.id).head?
    some ⟨name, target.id, scope.id, nameRange, typeName, .localVar⟩
  | _ => none

end Index

/-- The declarations of a document, in source order. -/
structure Declarations where
  classes : List ClassDecl
  methods : List MethodDecl
  fields : List FieldDecl
  vars : List VariableDecl
  imports : List ImportDecl
  deriving DecidableEq, Repr

namespace Declarations

/-- The declarations of an indexed document. -/
def ofIndex (idx : Index) : Declarations where
  classes := idx.entries.filterMap Entry.classDecl?
  methods := idx.entries.filterMap idx.methodDecl?
  fields := idx.entries.filterMap idx.fieldDecl?
  vars := idx.entries.filterMap idx.variableDecl?
  imports := idx.entries.filterMap Entry.importDecl?

variable (d : Declarations)

/-- The classes of a name. -/
def classesNamed (name : String) : List ClassDecl := d.classes.filter (·.name == name)

/-- The classes, those of one name side by side. -/
def classesByName : List ClassDecl := groupedBy ClassDecl.name d.classes

/-- The methods of a name, in whatever class. -/
def methodsNamed (name : String) : List MethodDecl := d.methods.filter (·.name == name)

/-- The method declared at a node. -/
def methodAt? (node : NodeId) : Option MethodDecl := d.methods.find? (·.node == node)

/-- The constructors of a class. -/
def constructorsOf (owner : NodeId) : List MethodDecl := d.methods.filter (·.constructs owner)

/-- The fields and properties of a class, or of the script. -/
def fieldsOf (owner : Option NodeId) : List FieldDecl := d.fields.filter (·.owner == owner)

/-- The first field or property of a name in a class, or in the script. -/
def fieldOf? (owner : Option NodeId) (name : String) : Option FieldDecl :=
  (d.fieldsOf owner).find? (·.name == name)

/-- The fields and properties of a name, those of one class side by side. -/
def fieldsNamed (name : String) : List FieldDecl :=
  (groupedBy FieldDecl.owner d.fields).filter (·.name == name)

/-- The field or property declared at a node. -/
def fieldAt? (node : NodeId) : Option FieldDecl := d.fields.find? (·.node == node)

/-- The variable whose identifier is a node. -/
def variableAt? (node : NodeId) : Option VariableDecl := d.vars.find? (·.node == node)

/-- The latest variable of a name in a scope that is declared at or before a position. -/
def variableIn? (scope : NodeId) (name : String) (pos : Position) : Option VariableDecl :=
  (d.vars.filter fun v => v.name == name && v.scope == scope && v.declaredAt ≤ pos).getLast?

/-- The variable of a name that a node sees at a position: that of the innermost scope. -/
def visibleVariable? (idx : Index) (name : String) (node : NodeId) (pos : Position) :
    Option VariableDecl :=
  (idx.scopes node).findSome? fun scope => d.variableIn? scope.id name pos

/-- The imports that have a name, the first of each name. -/
def namedImports : List ImportDecl :=
  firstPerKey ImportDecl.simpleName (d.imports.filter (!·.isStar))

/-- The imports that count: those of a name, then those of whole packages. -/
def activeImports : List ImportDecl := d.namedImports ++ d.imports.filter (·.isStar)

/-- The import of a name. -/
def importNamed? (name : String) : Option ImportDecl :=
  d.namedImports.find? (·.simpleName == name)

end Declarations

end GroovyIndex
