import GroovyIndex.Source.Uri

/-!
# Documents

A document is named by its URI and counted by its version.
-/

namespace GroovyIndex

/-- One version of a document. -/
structure Document where
  uri : Uri
  version : Int
  deriving DecidableEq, Repr

end GroovyIndex
