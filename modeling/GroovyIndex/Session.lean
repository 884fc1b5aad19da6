import GroovyIndex.Config
import GroovyIndex.Resolution.Auxiliary

/-!
# Sessions

A session asks questions of one snapshot. It keeps that snapshot, the auxiliary ones and the chain
of strategies, so its answers do not change when the document does.
-/

namespace GroovyIndex

/-- A snapshot and what is needed to answer questions about it. -/
structure Session where
  snapshot : Snapshot
  auxiliary : List Snapshot
  chain : Chain
  config : ServiceConfig

namespace Session

variable (s : Session)

/-- The document asked about. -/
def uri : Uri := s.snapshot.uri

/-- The innermost node at a position. -/
def entryAt (pos : Position) : Except QueryError Entry :=
  match s.snapshot.index.entryAt? pos with
  | some e => .ok e
  | none => .error .invalidPosition

/-- The definition that a node refers to. -/
def resolve (e : Entry) : Except QueryError Definition :=
  s.chain.resolve ⟨s.snapshot, s.auxiliary, e⟩

/-- The definition that the node at a position refers to. -/
def resolveAt (pos : Position) : Except QueryError Definition := do
  s.resolve (← s.entryAt pos)

/-- Where the declaration stands that the node at a position refers to. -/
def definitionAt (pos : Position) : Except QueryError Location := do
  return (← s.resolveAt pos).location

/-- The snapshot of the document of a definition: this one, or an auxiliary one. -/
def snapshotOf? (d : Definition) : Option Snapshot :=
  if d.uri = s.uri then some s.snapshot else s.auxiliary.find? (·.uri = d.uri)

end Session

end GroovyIndex
