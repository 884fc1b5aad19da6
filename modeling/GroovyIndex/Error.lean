/-!
# Errors

`QueryError` lists why a question about a document has no answer. Most of its causes only mean that
there is nothing to show; `isEmptyResult` tells them apart. `ServiceError` lists what can go wrong
around the questions: reading a file, reading JSON, parsing source.
-/

namespace GroovyIndex

/-- Why a question about a document has no answer. -/
inductive QueryError where
  | nodeNotFound
  | invalidPosition
  | unsupportedNodeKind
  | invalidIdentifier (name : String)
  | staleIndex (uri : String)
  deriving DecidableEq, Repr

namespace QueryError

/-- The text shown for the error. -/
def message : QueryError → String
  | nodeNotFound => "No declaration found for the symbol"
  | invalidPosition => "Position is outside every indexed node"
  | unsupportedNodeKind => "Node kind is not handled by any resolution strategy"
  | invalidIdentifier name => "Invalid identifier: " ++ name
  | staleIndex uri => "No completed index for " ++ uri

/-- The causes that merely say "no symbol here". -/
def isEmptyResult : QueryError → Bool
  | nodeNotFound | invalidPosition | unsupportedNodeKind => true
  | invalidIdentifier _ | staleIndex _ => false

end QueryError

/-- What can go wrong around the questions. -/
inductive ServiceError where
  | io
  | json
  | parsing (text : String)
  | index (cause : QueryError)
  deriving DecidableEq, Repr

namespace ServiceError

/-- The text shown for the error, where this library words it. -/
def message? : ServiceError → Option String
  | io | json => none
  | parsing text => some ("Parsing error: " ++ text)
  | index cause => some ("Index error: " ++ cause.message)

end ServiceError

end GroovyIndex
