import GroovyIndex.Text.Percent

/-!
# Paths of URIs

A path is a list of segments. In its normal form no segment stands for the place itself (`.`) or for
the one above (`..`), and characters that a path does not hold are written by their bytes. A path
does not go up from a drive.
-/

namespace GroovyIndex

namespace Uri

/-- What a scheme says about the rest of a URI. -/
inductive Family where
  /-- The rest names a file. -/
  | file
  /-- The rest names a host and what is asked of it. -/
  | network
  /-- The rest may be anything. -/
  | general
  deriving DecidableEq, Repr

namespace Family

/-- The family of a scheme. -/
def ofScheme (scheme : String) : Family :=
  match scheme with
  | "file" => file
  | "http" | "https" | "ws" | "wss" | "ftp" => network
  | _ => general

/-- The character separates the segments of a path. -/
def isSlash (family : Family) (c : Char) : Bool := c == '/' || family != general && c == '\\'

end Family

/-- Splits a text at its separators. -/
def segments (isSlash : Char → Bool) : List Char → List (List Char)
  | [] => [[]]
  | c :: rest =>
    match segments isSlash rest with
    | first :: others => if isSlash c then [] :: first :: others else (c :: first) :: others
    | [] => []

/-- The segment with its written-out dots as dots. -/
private def plainDots : List Char → List Char
  | '%' :: '2' :: 'e' :: rest | '%' :: '2' :: 'E' :: rest => '.' :: plainDots rest
  | c :: rest => c :: plainDots rest
  | [] => []

/-- The segment stays where it is. -/
def isHere (segment : List Char) : Bool := plainDots segment == ['.']

/-- The segment goes up to the segment before it. -/
def isUp (segment : List Char) : Bool := plainDots segment == ['.', '.']

/-- The segment names a drive: a letter, and a colon or bar. -/
def isDrive : List Char → Bool
  | [letter, mark] => letter.isAlpha && (mark == ':' || mark == '|')
  | _ => false

/-- The segments behind which a path goes up; a drive is never left. -/
def goUp : List (List Char) → List (List Char)
  | [] => []
  | last :: before => if isDrive last then last :: before else before

/-- Walks the segments of a path, with those passed so far in reverse. A path that ends in a dot
segment ends in a separator. -/
def walk : List (List Char) → List (List Char) → List (List Char)
  | passed, [] => passed.reverse
  | passed, segment :: rest =>
    let step := if isUp segment then goUp passed
      else if isHere segment then passed
      else segment :: passed
    if rest.isEmpty && (isUp segment || isHere segment) then ([] :: step).reverse
    else walk step rest

/-- The path with the given segments. -/
def joined (path : List (List Char)) : List Char := path.flatMap ('/' :: ·)

/-- The segments of a path in normal form. -/
def pathSegments (family : Family) (path : List Char) : List (List Char) :=
  let raw := segments family.isSlash path
  let raw := if raw.head? == some [] then raw.tail else raw
  walk [] (raw.map (Text.percentEncode Text.escapedInPath))

/-- The path of a file; it is never empty. -/
def filePath (path : List Char) : List Char :=
  match pathSegments .file path with
  | [] => ['/']
  | segments => joined segments

end Uri

end GroovyIndex
