import GroovyIndex.Source.Document
import GroovyIndex.Tree.Kind

/-!
# Symbols and their occurrences

A definition is the declaration that a use resolves to. Two definitions are the same symbol when
they point at the same declaring node of the same document; everything else they carry is for
presentation.
-/

namespace GroovyIndex

/-- What a symbol is. -/
inductive SymbolKind where
  | classDecl
  | method
  | constructor
  | field
  | property
  | localVar
  | parameter
  | importDecl
  deriving DecidableEq, Repr

namespace SymbolKind

/-- Symbols of this kind are read and written through accessor methods. -/
def hasAccessors : SymbolKind → Bool
  | field | property => true
  | _ => false

/-- Symbols of this kind belong to the class around them. -/
def isMember : SymbolKind → Bool
  | method | constructor | field | property => true
  | classDecl | localVar | parameter | importDecl => false

end SymbolKind

/-- A range of a document. -/
structure Location where
  uri : Uri
  range : Range
  deriving DecidableEq, Repr

/-- The declaration that a use resolves to. -/
structure Definition where
  uri : Uri
  node : NodeId
  name : String
  kind : SymbolKind
  /-- The range of the whole declaration. -/
  range : Range
  /-- The range of the declared identifier. -/
  selectionRange : Range
  /-- The declared type, when the source spells one out. -/
  typeName : Option String
  /-- The class around a member. -/
  owner : Option NodeId
  deriving DecidableEq, Repr

namespace Definition

/-- Where the declared identifier stands. -/
def location (d : Definition) : Location := ⟨d.uri, d.selectionRange⟩

/-- The two definitions point at one declaring node. -/
def sameSymbol (d e : Definition) : Bool := d.node == e.node && d.uri == e.uri

end Definition

/-- An occurrence of a symbol: its declaration, or a use. -/
structure Reference where
  location : Location
  isDeclaration : Bool
  deriving DecidableEq, Repr

namespace Reference

/-- What tells occurrences apart: the document and the start of the identifier. -/
def key (r : Reference) : Uri × Position := (r.location.uri, r.location.range.start)

end Reference

/-- What happens to a symbol at an occurrence. -/
inductive HighlightKind where
  | read
  | write
  deriving DecidableEq, Repr

/-- A highlighted occurrence within one document. -/
structure Highlight where
  range : Range
  kind : HighlightKind
  deriving DecidableEq, Repr

/-- A symbol of a document's outline, with the symbols below it. -/
structure OutlineSymbol where
  name : String
  kind : SymbolKind
  detail : Option String
  range : Range
  selectionRange : Range
  children : List OutlineSymbol
  deriving Repr

end GroovyIndex
