import GroovyIndex.Source.Document
import GroovyIndex.Tree.Node

/-!
# Parsed documents

What a parser hands over for one version of a document: the tree, the complaints it has, and how
far compilation came.
-/

namespace GroovyIndex

/-- How serious a complaint is. -/
inductive Severity where
  | error
  | warning
  | information
  | hint
  deriving DecidableEq, Repr

/-- A complaint about the source. -/
structure Diagnostic where
  range : Option Range
  severity : Severity
  message : String
  deriving DecidableEq, Repr

/-- The phases of compilation, in the order in which they run. -/
inductive CompilePhase where
  | initialization
  | parsing
  | conversion
  | semanticAnalysis
  | canonicalization
  deriving DecidableEq, Repr

namespace CompilePhase

/-- The place of the phase in the order. -/
def rank : CompilePhase → Nat
  | initialization => 0
  | parsing => 1
  | conversion => 2
  | semanticAnalysis => 3
  | canonicalization => 4

instance : Ord CompilePhase := ⟨fun a b => compare a.rank b.rank⟩

end CompilePhase

/-- A parsed version of a document. -/
structure ParsedModule where
  document : Document
  root : Node
  diagnostics : List Diagnostic
  phase : CompilePhase
  deriving Repr

namespace ParsedModule

/-- A fully compiled document without complaints. -/
def clean (document : Document) (root : Node) : ParsedModule :=
  ⟨document, root, [], .canonicalization⟩

/-- Some complaint is an error. -/
def hasErrors (m : ParsedModule) : Bool := m.diagnostics.any (·.severity == .error)

end ParsedModule

end GroovyIndex
