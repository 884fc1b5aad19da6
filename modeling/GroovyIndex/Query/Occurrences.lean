import GroovyIndex.Session

/-!
# Occurrences of a symbol

The occurrences of a symbol in a document are the nodes that resolve to its declaration. Only
nodes of its name, and the declaring node itself, are asked. A symbol of another document adds its
declaration there. Of several occurrences whose identifiers start together the first stays.
-/

namespace GroovyIndex

namespace Session

variable (s : Session)

/-- A node may be an occurrence: it is the declaring node, or it has the name. -/
def isCandidate (target : Definition) (e : Entry) : Bool :=
  e.id == target.node && target.uri == s.uri || e.name? == some target.name

/-- The node resolves to the symbol. -/
def refersTo (target : Definition) (e : Entry) : Bool :=
  match s.resolve e with
  | .ok d => d.sameSymbol target
  | .error _ => false

/-- The occurrence of a symbol that a node is. -/
def occurrence? (target : Definition) (e : Entry) : Option Reference :=
  if s.isCandidate target e && s.refersTo target e then
    e.nameRange?.map fun range => ⟨⟨s.uri, range⟩, s.snapshot.index.declares e⟩
  else none

/-- The declaration of a symbol of another document. -/
def foreignDeclaration (target : Definition) : List Reference :=
  if target.uri = s.uri then [] else [⟨target.location, true⟩]

/-- The occurrences of a symbol, with or without its declaration. -/
def referencesTo (target : Definition) (withDeclaration : Bool) : List Reference :=
  let all :=
    s.foreignDeclaration target ++ s.snapshot.index.entries.filterMap (s.occurrence? target)
  firstPerKey Reference.key (all.filter fun r => withDeclaration || !r.isDeclaration)

/-- The occurrences of the symbol at a position. A position inside a node fails for one reason
only: no declaration is found. -/
def referencesAt (pos : Position) (withDeclaration : Bool) : Except QueryError (List Reference) :=
  match s.resolveAt pos with
  | .ok target => .ok (s.referencesTo target withDeclaration)
  | .error .invalidPosition => .error .invalidPosition
  | .error _ => .error .nodeNotFound

/-- How an occurrence is highlighted: a declaration writes, a use reads. -/
def highlightOf (r : Reference) : Highlight :=
  ⟨r.location.range, if r.isDeclaration then .write else .read⟩

/-- The occurrences of the symbol at a position within the document. -/
def highlightsAt (pos : Position) : Except QueryError (List Highlight) := do
  let references ← s.referencesAt pos true
  return (references.filter (·.location.uri = s.uri)).map highlightOf

end Session

end GroovyIndex
