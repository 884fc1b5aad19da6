import GroovyIndex.Query.CallHelp
import GroovyIndex.Query.Outline
import GroovyIndex.Query.Rename
import GroovyIndex.Store

/-!
# Service

What an editor talks to: a store of documents, the chain of strategies and the configuration. Its
answers make no difference between "no such symbol" and "no symbol here": both are an empty answer.
What remains an error is a document without a snapshot and a new name that is no identifier.
-/

namespace GroovyIndex

/-- Documents and how questions about them are answered. -/
structure Service where
  store : Store
  chain : Chain
  config : ServiceConfig

/-- Turns the causes that only say "nothing here" into the absence of an answer. -/
def settle {α : Type} : Except QueryError α → Except QueryError (Option α)
  | .ok a => .ok (some a)
  | .error e => if e.isEmptyResult then .ok none else .error e

namespace Service

/-- The service without documents. -/
def empty (config : ServiceConfig) : Service := ⟨.empty, .standard, config⟩

/-- Puts a strategy in front of all others. -/
def withStrategy (v : Service) (strategy : Strategy) : Service :=
  ⟨v.store, v.chain.prepend strategy, v.config⟩

variable (v : Service)

/-- Opens a session on a document that also sees the declarations of auxiliary ones. -/
def session (uri : Uri) (auxiliary : List Snapshot) : Except QueryError Session := do
  let snapshot ← v.store.snapshot uri
  return ⟨snapshot, auxiliary, v.chain, v.config⟩

/-- The innermost node at a position. -/
def entryAt (uri : Uri) (pos : Position) : Except QueryError (Option Entry) := do
  return (← v.store.snapshot uri).index.entryAt? pos

/-- The first node lies above the second. -/
def isAncestor (uri : Uri) (above below : NodeId) : Except QueryError Bool := do
  return (← v.store.snapshot uri).index.isAncestor above below

/-- Every node of a document. -/
def entries (uri : Uri) : Except QueryError (List Entry) := do
  return (← v.store.snapshot uri).index.entries

/-- The methods of a name in a document. -/
def methodsNamed (uri : Uri) (name : String) : Except QueryError (List MethodDecl) := do
  return (← v.store.snapshot uri).declarations.methodsNamed name

/-- Where the declaration stands that the node at a position refers to. -/
def definition (uri : Uri) (pos : Position) : Except QueryError (Option Location) := do
  settle ((← v.session uri []).definitionAt pos)

/-- The occurrences of the symbol at a position within the document. -/
def highlights (uri : Uri) (pos : Position) : Except QueryError (List Highlight) := do
  return (← settle ((← v.session uri []).highlightsAt pos)).getD []

/-- The occurrences of the symbol at a position. -/
def references (uri : Uri) (pos : Position) (withDeclaration : Bool) :
    Except QueryError (List Reference) := do
  return (← settle ((← v.session uri []).referencesAt pos withDeclaration)).getD []

/-- The identifier that a rename at a position starts from. -/
def prepareRename (uri : Uri) (pos : Position) : Except QueryError (Option Range) := do
  settle ((← v.session uri []).prepareRename pos)

/-- The edits that give the symbol at a position a new name. -/
def rename (uri : Uri) (pos : Position) (newName : String) :
    Except QueryError (Option EditBatch) := do
  settle ((← v.session uri []).rename pos newName)

/-- The signatures offered at a position. -/
def signatureHelp (uri : Uri) (pos : Position) : Except QueryError (Option SignatureHelp) := do
  settle ((← v.session uri []).signatureHelp pos)

/-- The outline of a document. -/
def outline (uri : Uri) : Except QueryError (List OutlineSymbol) := do
  return (← v.session uri []).snapshot.outline

end Service

end GroovyIndex
