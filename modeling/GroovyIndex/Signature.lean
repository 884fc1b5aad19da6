/-!
# Signatures

What a caller needs to know of a method: its name, what it returns and what it takes.
-/

namespace GroovyIndex

/-- A parameter of a method. -/
structure ParameterInfo where
  name : String
  typeName : Option String
  hasDefault : Bool
  deriving DecidableEq, Repr

namespace ParameterInfo

/-- The parameter as it is shown: `String name`, or the name alone. -/
def label (p : ParameterInfo) : String :=
  match p.typeName with
  | some type => type ++ " " ++ p.name
  | none => p.name

end ParameterInfo

/-- The signature of a method. -/
structure SignatureInfo where
  name : String
  returnType : Option String
  parameters : List ParameterInfo
  deriving DecidableEq, Repr

namespace SignatureInfo

/-- The signature as it is shown, such as `def greet(String name, times)`; a method without a
declared return type shows `def`. -/
def label (s : SignatureInfo) : String :=
  let parameters := ", ".intercalate (s.parameters.map ParameterInfo.label)
  s.returnType.getD "def" ++ " " ++ s.name ++ "(" ++ parameters ++ ")"

end SignatureInfo

/-- The signatures offered at a call, and which of them and which parameter the cursor is in. -/
structure SignatureHelp where
  signatures : List SignatureInfo
  activeSignature : Nat
  activeParameter : Nat
  deriving DecidableEq, Repr

end GroovyIndex
