import GroovyIndex.Error
import GroovyIndex.Snapshot

/-!
# Chains of strategies

To resolve a node is to find the declaration that it refers to. A strategy knows one way to do so. A
chain asks its strategies in order. The first one that finds a definition decides, and so does the
failure of a terminal strategy; when none decides, the latest failure is reported.
-/

namespace GroovyIndex

/-- What a strategy may consult for one node. -/
structure Lookup where
  snapshot : Snapshot
  /-- Further documents whose declarations can be seen. -/
  auxiliary : List Snapshot
  entry : Entry

namespace Lookup

/-- Where the look-up takes place: the start of the node, else the start of the document. -/
def position (l : Lookup) : Position := l.entry.start?.getD .origin

end Lookup

/-- What a strategy says about a node. -/
inductive Outcome where
  | found (definition : Definition)
  /-- The strategy does not handle such nodes. -/
  | notApplicable
  | notFound (error : QueryError)
  deriving DecidableEq, Repr

namespace Outcome

/-- A definition is found, or no declaration is. -/
def ofOption : Option Definition → Outcome
  | some definition => found definition
  | none => notFound .nodeNotFound

end Outcome

/-- A way to resolve nodes. -/
structure Strategy where
  name : String
  /-- The failure of the strategy is final. -/
  isTerminal : Bool
  attempt : Lookup → Outcome

/-- Strategies in the order in which they are asked. -/
structure Chain where
  strategies : List Strategy

namespace Chain

/-- Asks the strategies in order, with the latest failure so far. -/
def run (l : Lookup) : Option QueryError → List Strategy → Except QueryError Definition
  | pending, [] => .error (pending.getD .unsupportedNodeKind)
  | pending, s :: rest =>
    match s.attempt l with
    | .found definition => .ok definition
    | .notApplicable => run l pending rest
    | .notFound error => if s.isTerminal then .error error else run l (some error) rest

/-- The definition that a node refers to. -/
def resolve (chain : Chain) (l : Lookup) : Except QueryError Definition :=
  run l none chain.strategies

/-- Puts a strategy in front of all others. -/
def prepend (chain : Chain) (s : Strategy) : Chain := ⟨s :: chain.strategies⟩

/-- The names of the strategies. -/
def names (chain : Chain) : List String := chain.strategies.map Strategy.name

end Chain

end GroovyIndex
