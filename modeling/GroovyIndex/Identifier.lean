import GroovyIndex.Error
import GroovyIndex.Text.Letter
import GroovyIndex.Text.Numeral

/-!
# Identifiers

An identifier starts with a letter, an underscore or a dollar sign, goes on with these and with
numerals, and is no reserved word.
-/

namespace GroovyIndex.Identifier

/-- The words that never name a symbol. -/
def keywords : List String :=
  ["abstract", "as", "assert", "boolean", "break", "byte", "case", "catch", "char", "class",
   "const", "continue", "def", "default", "do", "double", "else", "enum", "extends", "false",
   "final", "finally", "float", "for", "goto", "if", "implements", "import", "in", "instanceof",
   "int", "interface", "long", "native", "new", "null", "package", "private", "protected",
   "public", "return", "short", "static", "strictfp", "super", "switch", "synchronized", "this",
   "threadsafe", "throw", "throws", "trait", "transient", "true", "try", "var", "void",
   "volatile", "while"]

/-- The word is reserved. -/
def isKeyword (name : String) : Bool := keywords.contains name

/-- The character may start an identifier. -/
def isStart (c : Char) : Bool := Text.isLetter c || c == '_' || c == '$'

/-- The character may stand in an identifier. -/
def isPart (c : Char) : Bool := Text.isLetter c || Text.isNumeral c || c == '_' || c == '$'

/-- The text names a symbol. -/
def isValid (name : String) : Bool :=
  match name.toList with
  | [] => false
  | first :: rest => isStart first && rest.all isPart && !isKeyword name

/-- Refuses a text that is no identifier. -/
def validate (name : String) : Except QueryError Unit :=
  if isValid name then .ok () else .error (.invalidIdentifier name)

end GroovyIndex.Identifier
