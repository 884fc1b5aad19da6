import GroovyIndex.Edit
import GroovyIndex.Signature
import GroovyIndex.Symbol

/-!
# Language Server Protocol values

Editors speak the Language Server Protocol, whose lines and characters have 32 bits. Larger
numbers become the largest one that fits. Lines and characters do so apart, so all lines from the
last one of the protocol on become that line.
-/

namespace GroovyIndex.Lsp

/-- The largest number of 32 bits. -/
def maxCount : Nat := UInt32.size - 1

/-- The number, or the largest one that fits. -/
def saturate (n : Nat) : Nat := min n maxCount

/-- A position as the protocol counts it. -/
structure Position where
  line : Nat
  character : Nat
  deriving DecidableEq, Repr

namespace Position

/-- Positions are ordered by line and then by character. -/
protected def AtMost (a b : Position) : Prop :=
  a.line < b.line ∨ a.line = b.line ∧ a.character ≤ b.character

instance : LE Position := ⟨Position.AtMost⟩

instance (a b : Position) : Decidable (a ≤ b) :=
  inferInstanceAs (Decidable (a.line < b.line ∨ a.line = b.line ∧ a.character ≤ b.character))

theorem le_def {a b : Position} :
    a ≤ b ↔ a.line < b.line ∨ a.line = b.line ∧ a.character ≤ b.character := Iff.rfl

/-- The protocol's form of a position. -/
def ofPosition (p : GroovyIndex.Position) : Position := ⟨saturate p.line, saturate p.col⟩

/-- The position that the protocol names. -/
def toPosition (p : Position) : GroovyIndex.Position := ⟨p.line, p.character⟩

end Position

/-- A range in the protocol's positions. -/
structure Range where
  start : Position
  stop : Position
  deriving DecidableEq, Repr

/-- The protocol's form of a range. -/
def Range.ofRange (r : GroovyIndex.Range) : Range :=
  ⟨.ofPosition r.start, .ofPosition r.stop⟩

/-- An edit in the protocol's positions. -/
structure TextEdit where
  range : Range
  newText : String
  deriving DecidableEq, Repr

/-- The protocol's form of an edit. -/
def TextEdit.ofTextEdit (e : GroovyIndex.TextEdit) : TextEdit := ⟨.ofRange e.range, e.newText⟩

/-- A highlight in the protocol's positions, with the protocol's number for what happens there. -/
structure Highlight where
  range : Range
  kind : Nat
  deriving DecidableEq, Repr

/-- The protocol's number for what happens at an occurrence. -/
def highlightKind : HighlightKind → Nat
  | .read => 2
  | .write => 3

/-- The protocol's form of a highlight. -/
def Highlight.ofHighlight (h : GroovyIndex.Highlight) : Highlight :=
  ⟨.ofRange h.range, highlightKind h.kind⟩

/-- The protocol's number for a kind of symbol. -/
def symbolKind : SymbolKind → Nat
  | .classDecl => 5
  | .method => 6
  | .property => 7
  | .field => 8
  | .constructor => 9
  | .localVar | .parameter => 13
  | .importDecl => 2

/-- A signature as the protocol shows it. -/
structure SignatureInformation where
  label : String
  parameters : List String
  deriving DecidableEq, Repr

/-- The signatures offered at a call, as the protocol shows them. -/
structure SignatureHelp where
  signatures : List SignatureInformation
  activeSignature : Nat
  activeParameter : Nat
  deriving DecidableEq, Repr

/-- The protocol's form of the signatures offered at a call. -/
def SignatureHelp.ofHelp (help : GroovyIndex.SignatureHelp) : SignatureHelp where
  signatures := help.signatures.map fun s => ⟨s.label, s.parameters.map ParameterInfo.label⟩
  activeSignature := saturate help.activeSignature
  activeParameter := saturate help.activeParameter

end GroovyIndex.Lsp
