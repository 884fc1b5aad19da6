import GroovyIndex.Source.Uri.Path

/-!
# URIs

A URI names a document. URIs are compared, ordered and printed as text, so a text is first brought
into its normal form: the scheme in lower case, `.` and `..` gone from the path, and characters
that a URI does not hold written by their bytes. A text without a scheme is no URI.
-/

namespace GroovyIndex

/-- The name of a document. -/
structure Uri where
  text : String
  deriving DecidableEq, Repr, Hashable

namespace Uri

instance : ToString Uri := ⟨Uri.text⟩

/-- A character that may stand in a scheme behind its first letter. -/
private def isSchemeChar (c : Char) : Bool :=
  c.isAlphanum || c == '+' || c == '-' || c == '.'

/-- Splits a text behind its scheme: a letter, scheme characters, and a colon. -/
def splitScheme? (text : List Char) : Option (String × List Char) :=
  match text.span isSchemeChar with
  | (first :: scheme, ':' :: rest) =>
    if first.isAlpha then some (String.ofList ((first :: scheme).map Char.toLower), rest) else none
  | _ => none

/-- The text without blanks and control characters around it, and without line breaks and tabs. -/
def trimmed (text : List Char) : List Char :=
  let isBlank (c : Char) : Bool := c.toNat ≤ 0x20
  let inner := ((text.dropWhile isBlank).reverse.dropWhile isBlank).reverse
  inner.filter fun c => c != '\t' && c != '\n' && c != '\r'

/-! ## What stands between the scheme and the query -/

/-- The name of a host in lower case, behind the user who asks it, if one is named. -/
def lowerHost (text : List Char) : List Char :=
  let (host, user) := text.reverse.span (· != '@')
  user.reverse ++ host.reverse.map Char.toLower

/-- The host, in normal form; on a network there has to be one. -/
def authority? (family : Family) (text : List Char) : Option (List Char) :=
  match family with
  | .general => some (Text.percentEncode Text.isUnprintable text)
  | .file => some (lowerHost text)
  | .network => if text.isEmpty then none else some (lowerHost text)

/-- A host and a path behind the two separators that introduce a host. -/
def located? (family : Family) (text : List Char) : Option (List Char) := do
  let (authority, path) := text.span (!family.isSlash ·)
  let authority ← authority? family authority
  let path := if path.isEmpty && family != .general then ['/'] else path
  return '/' :: '/' :: authority ++ joined (pathSegments family path)

/-- What a file URI has behind the scheme; the local host is left out. -/
def fileBody? (text : List Char) : Option (List Char) :=
  let isSlash := Family.file.isSlash
  match text with
  | a :: b :: rest =>
    if isSlash a && isSlash b then
      let (host, path) := rest.span (!isSlash ·)
      if isDrive host then some ('/' :: '/' :: filePath rest)
      else
        (authority? .file host).map fun name =>
          let name := if String.ofList name == "localhost" then [] else name
          '/' :: '/' :: name ++ filePath path
    else some ('/' :: '/' :: filePath text)
  | _ => some ('/' :: '/' :: filePath text)

/-- What any other URI has behind the scheme. A path that starts with two separators is told from
a host by a dot in front. -/
def generalBody? (text : List Char) : Option (List Char) :=
  match text with
  | '/' :: '/' :: rest => located? .general rest
  | '/' :: _ =>
    let path := joined (pathSegments .general text)
    some (if path.take 2 == ['/', '/'] then '/' :: '.' :: path else path)
  | _ => some (Text.percentEncode Text.isUnprintable text)

/-- What stands between the scheme and the query, in normal form. -/
def body? (family : Family) (text : List Char) : Option (List Char) :=
  match family with
  | .file => fileBody? text
  | .network => located? family (text.dropWhile family.isSlash)
  | .general => generalBody? text

/-! ## Query and fragment -/

/-- The query and the fragment, in normal form. -/
def suffix (family : Family) (text : List Char) : List Char :=
  let escaped (c : Char) : Bool := Text.escapedInQuery c || family != .general && c == '\''
  let (query, fragment) := text.span (· != '#')
  let fragment := match fragment with
    | mark :: rest => mark :: Text.percentEncode Text.escapedInFragment rest
    | [] => []
  Text.percentEncode escaped query ++ fragment

/-- Reads a URI. Of a host only the case of its letters is changed: a port stays where the scheme
implies it, and names beyond ASCII and numeric addresses stay as they are written. -/
def ofText? (text : String) : Option Uri := do
  let (scheme, rest) ← splitScheme? (trimmed text.toList)
  let family := Family.ofScheme scheme
  let (body, tail) := rest.span fun c => c != '?' && c != '#'
  let body ← body? family body
  return ⟨scheme ++ ":" ++ String.ofList (body ++ suffix family tail)⟩

/-- The text of the URI is in normal form. -/
def IsNormal (uri : Uri) : Prop := ofText? uri.text = some uri

instance (uri : Uri) : Decidable uri.IsNormal :=
  inferInstanceAs (Decidable (ofText? uri.text = some uri))

end Uri

end GroovyIndex
