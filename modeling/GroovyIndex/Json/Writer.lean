import GroovyIndex.Json.Value

/-!
# Writing JSON

The compact text of a value: no blanks, fields in their order, every character raw except the
quote, the backslash and the control characters.
-/

namespace GroovyIndex.Json

/-- A hexadecimal digit, in lower case. -/
def hexDigit (n : Nat) : Char :=
  if n < 10 then Char.ofNat (48 + n) else Char.ofNat (87 + n)

/-- A character as it stands in a string literal. -/
def escape (c : Char) : List Char :=
  if c == '"' then ['\\', '"']
  else if c == '\\' then ['\\', '\\']
  else if c == '\n' then ['\\', 'n']
  else if c == '\r' then ['\\', 'r']
  else if c == '\t' then ['\\', 't']
  else if c == Char.ofNat 8 then ['\\', 'b']
  else if c == Char.ofNat 12 then ['\\', 'f']
  else if c.toNat < 32 then ['\\', 'u', '0', '0', hexDigit (c.toNat / 16), hexDigit (c.toNat % 16)]
  else [c]

/-- A string literal. The one without a text is written as half of a surrogate pair. -/
def writeText : Option String → List Char
  | some s => '"' :: s.toList.flatMap escape ++ ['"']
  | none => ['"', '\\', 'u', 'd', '8', '0', '0', '"']

mutual
/-- The text of a value. -/
def write : Json → List Char
  | .null => ['n', 'u', 'l', 'l']
  | .bool true => ['t', 'r', 'u', 'e']
  | .bool false => ['f', 'a', 'l', 's', 'e']
  | .integer (.ofNat n) => Nat.toDigits 10 n
  | .integer (.negSucc n) => '-' :: Nat.toDigits 10 (n + 1)
  | .decimal literal => literal.toList
  | .string text => writeText text
  | .array [] => ['[', ']']
  | .array (item :: rest) => '[' :: write item ++ writeItems rest
  | .object [] => ['{', '}']
  | .object ((name, value) :: rest) =>
    '{' :: writeText name ++ ':' :: write value ++ writeFields rest
/-- The items behind the first one, and the closing bracket. -/
def writeItems : List Json → List Char
  | [] => [']']
  | item :: rest => ',' :: write item ++ writeItems rest
/-- The fields behind the first one, and the closing brace. -/
def writeFields : List (Option String × Json) → List Char
  | [] => ['}']
  | (name, value) :: rest => ',' :: writeText name ++ ':' :: write value ++ writeFields rest
end

/-- The compact text of a value. -/
def render (j : Json) : String := String.ofList j.write

end GroovyIndex.Json
