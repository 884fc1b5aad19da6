/-!
# Percent encoding

Characters that a place in a URI cannot hold are written as the bytes of their UTF-8 form, each a
percent sign and two hexadecimal digits. Which characters these are depends on the place.
-/

namespace GroovyIndex.Text

/-- An upper-case hexadecimal digit. -/
private def hexDigit (n : Nat) : Char := (Nat.digitChar n).toUpper

/-- A byte as a percent sign and two digits. -/
def percentByte (b : UInt8) : List Char :=
  ['%', hexDigit (b.toNat / 16), hexDigit (b.toNat % 16)]

/-- Writes the chosen characters by their bytes and all others as they are. -/
def percentEncode (chosen : Char → Bool) (text : List Char) : List Char :=
  text.flatMap fun c => if chosen c then (String.utf8EncodeChar c).flatMap percentByte else [c]

/-- Characters that no place holds: control characters and those beyond ASCII. -/
def isUnprintable (c : Char) : Bool := c.toNat < 0x20 || 0x7e < c.toNat

/-- Characters that a fragment does not hold. -/
def escapedInFragment (c : Char) : Bool := isUnprintable c || " \"<>`".toList.contains c

/-- Characters that a query does not hold. -/
def escapedInQuery (c : Char) : Bool := isUnprintable c || " \"#<>".toList.contains c

/-- Characters that a path does not hold. -/
def escapedInPath (c : Char) : Bool :=
  escapedInFragment c || "#?\x7b\x7d".toList.contains c

end GroovyIndex.Text
