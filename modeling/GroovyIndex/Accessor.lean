import GroovyIndex.Text.Uppercase

/-!
# Accessors

A field or property `name` is read and written through methods named after it: `getName` and
`setName`, and for a boolean also `isName`.
-/

namespace GroovyIndex

/-- Upper-cases the first character of a name. -/
def capitalize (name : String) : String :=
  match name.toList with
  | [] => ""
  | first :: rest => String.ofList (Text.upper first ++ rest)

/-- The kinds of accessor methods. -/
inductive Accessor where
  | get
  | set
  | is
  deriving DecidableEq, Repr

namespace Accessor

/-- What the name of such a method starts with. -/
def word : Accessor → String
  | get => "get"
  | set => "set"
  | is => "is"

/-- The name of the accessor of a field or property. -/
def methodName (a : Accessor) (property : String) : String := a.word ++ capitalize property

/-- The declared type is a boolean. -/
def isBooleanType (typeName : Option String) : Bool :=
  typeName == some "boolean" || typeName == some "Boolean"

/-- The accessors of a field or property of the declared type. -/
def ofType (typeName : Option String) : List Accessor :=
  if isBooleanType typeName then [get, set, is] else [get, set]

end Accessor

end GroovyIndex
