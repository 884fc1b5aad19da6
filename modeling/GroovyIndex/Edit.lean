import GroovyIndex.Source.Range
import GroovyIndex.Source.UriMap

/-!
# Edit batches

Edits to several documents that are made together or not at all. Documents come in the order of
their URIs. In one document at most one edit is added at a start position; the first one stays.
-/

namespace GroovyIndex

/-- A replacement of a range by a text. -/
structure TextEdit where
  range : Range
  newText : String
  deriving DecidableEq, Repr

namespace TextEdit

/-- The order of edits in a document: by start, then by end. -/
def atMost (a b : TextEdit) : Bool :=
  decide (a.range.start < b.range.start) ||
    a.range.start == b.range.start && decide (a.range.stop ≤ b.range.stop)

/-- Puts an edit in front of the first edit that it precedes, and behind its equals. -/
def insertSorted (e : TextEdit) : List TextEdit → List TextEdit
  | [] => [e]
  | f :: rest => if f.atMost e then f :: insertSorted e rest else e :: f :: rest

/-- Edits in order; those with the same range keep their order. -/
def sort (edits : List TextEdit) : List TextEdit :=
  edits.foldl (fun sorted e => insertSorted e sorted) []

end TextEdit

/-- A batch of edits, grouped by document in the order of the URIs. -/
structure EditBatch where
  changes : UriMap (List TextEdit)
  deriving DecidableEq, Repr

namespace EditBatch

/-- The batch without edits. -/
def empty : EditBatch := ⟨.empty⟩

/-- The edits of a document, in the order in which they were added. -/
def editsFor (batch : EditBatch) (uri : Uri) : List TextEdit :=
  (batch.changes.get? uri).getD []

/-- Sets the edits of a document. -/
def put (batch : EditBatch) (uri : Uri) (edits : List TextEdit) : EditBatch :=
  ⟨batch.changes.put uri edits⟩

/-- An edit of the document starts where this one does. -/
def clashes (batch : EditBatch) (uri : Uri) (edit : TextEdit) : Bool :=
  (batch.editsFor uri).any (·.range.start == edit.range.start)

/-- Adds an edit, unless one of the document already starts there. -/
def add (batch : EditBatch) (uri : Uri) (edit : TextEdit) : EditBatch :=
  if batch.clashes uri edit then batch else batch.put uri (batch.editsFor uri ++ [edit])

/-- Adds an edit as `add` does and says whether it was added. The list of the document is opened
first, if there is none. -/
def addEdit (batch : EditBatch) (uri : Uri) (edit : TextEdit) : EditBatch × Bool :=
  let opened := batch.put uri (batch.editsFor uri)
  if opened.clashes uri edit then (opened, false)
  else (opened.put uri (opened.editsFor uri ++ [edit]), true)

/-- Orders the edits of each document and drops documents without edits. -/
def normalize (batch : EditBatch) : EditBatch :=
  ⟨(batch.changes.map TextEdit.sort).filter (!·.isEmpty)⟩

/-- The number of edits. -/
def editCount (batch : EditBatch) : Nat := (batch.changes.entries.flatMap (·.2)).length

/-- There is no edit. -/
def isEmpty (batch : EditBatch) : Bool := batch.editCount == 0

end EditBatch

end GroovyIndex
