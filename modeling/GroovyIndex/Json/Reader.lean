import GroovyIndex.Json.Value

/-!
# Reading JSON

Strict JSON: no comments, no trailing commas, no leading zeros, no raw control characters in
strings, and nothing but blanks around the value. Reading either gives the value of the whole text
or nothing.
-/

namespace GroovyIndex.Json

/-- The blanks that may stand between tokens. -/
def isBlank (c : Char) : Bool := c == ' ' || c == '\n' || c == '\t' || c == '\r'

/-- Drops leading blanks. -/
def skipBlanks (cs : List Char) : List Char := cs.dropWhile isBlank

/-! ## Numbers -/

/-- The number that a run of decimal digits spells. -/
def digitsValue (digits : List Char) : Nat :=
  digits.foldl (fun n c => 10 * n + (c.toNat - 48)) 0

/-- The part in front of the point: a zero, or digits that do not start with one. -/
def wholePart : List Char → Option (List Char × List Char)
  | '0' :: rest => some (['0'], rest)
  | cs =>
    match cs.takeWhile Char.isDigit with
    | [] => none
    | digits => some (digits, cs.dropWhile Char.isDigit)

/-- A point and at least one digit, or nothing. -/
def fractionPart : List Char → Option (List Char × List Char)
  | '.' :: rest =>
    match rest.takeWhile Char.isDigit with
    | [] => none
    | digits => some ('.' :: digits, rest.dropWhile Char.isDigit)
  | cs => some ([], cs)

/-- The sign of an exponent, or nothing. -/
def exponentSign : List Char → List Char × List Char
  | '+' :: rest => (['+'], rest)
  | '-' :: rest => (['-'], rest)
  | cs => ([], cs)

/-- An exponent mark, a sign or none, and at least one digit; or nothing. -/
def exponentPart : List Char → Option (List Char × List Char)
  | c :: rest =>
    if c == 'e' || c == 'E' then
      let (sign, digits) := exponentSign rest
      match digits.takeWhile Char.isDigit with
      | [] => none
      | run => some (c :: sign ++ run, digits.dropWhile Char.isDigit)
    else some ([], c :: rest)
  | [] => some ([], [])

/-- A number without its sign. -/
def unsigned (negative : Bool) (cs : List Char) : Option (Json × List Char) := do
  let (whole, rest) ← wholePart cs
  let (fraction, rest) ← fractionPart rest
  let (exponent, rest) ← exponentPart rest
  let magnitude := digitsValue whole
  if fraction.isEmpty && exponent.isEmpty && !(negative && magnitude == 0) then
    return (.integer (if negative then -(magnitude : Int) else magnitude), rest)
  else
    let sign := if negative then ['-'] else []
    return (.decimal (String.ofList (sign ++ whole ++ fraction ++ exponent)), rest)

/-- A number. -/
def number : List Char → Option (Json × List Char)
  | '-' :: rest => unsigned true rest
  | cs => unsigned false cs

/-! ## Strings -/

/-- The value of a hexadecimal digit, in either case. -/
def hexValue (c : Char) : Option Nat :=
  if c.isDigit then some (c.toNat - 48)
  else if 'a' ≤ c && c ≤ 'f' then some (c.toNat - 87)
  else if 'A' ≤ c && c ≤ 'F' then some (c.toNat - 55)
  else none

/-- The number that four hexadecimal digits spell. -/
def hexCode (a b c d : Char) : Option Nat := do
  return 4096 * (← hexValue a) + 256 * (← hexValue b) + 16 * (← hexValue c) + (← hexValue d)

/-- The code that a letter behind a backslash stands for. -/
def unescape : Char → Option Nat
  | '"' => some 34
  | '\\' => some 92
  | '/' => some 47
  | 'b' => some 8
  | 'f' => some 12
  | 'n' => some 10
  | 'r' => some 13
  | 't' => some 9
  | _ => none

/-- The codes of a string literal up to its closing quote, and what follows it. -/
def stringCodes : List Char → Option (List Nat × List Char)
  | [] => none
  | '"' :: rest => some ([], rest)
  | '\\' :: 'u' :: a :: b :: c :: d :: rest => do
    let code ← hexCode a b c d
    let (codes, rest) ← stringCodes rest
    return (code :: codes, rest)
  | '\\' :: c :: rest => do
    let code ← unescape c
    let (codes, rest) ← stringCodes rest
    return (code :: codes, rest)
  | c :: rest =>
    if c.toNat < 32 then none
    else do
      let (codes, rest) ← stringCodes rest
      return (c.toNat :: codes, rest)

/-- The first half of a surrogate pair. -/
def isHighSurrogate (code : Nat) : Bool := 0xD800 ≤ code && code < 0xDC00

/-- The second half of a surrogate pair. -/
def isLowSurrogate (code : Nat) : Bool := 0xDC00 ≤ code && code < 0xE000

/-- The character that a surrogate pair stands for. -/
def pairedChar (high low : Nat) : Char :=
  Char.ofNat (0x10000 + (high - 0xD800) * 0x400 + (low - 0xDC00))

/-- The characters of a sequence of codes; there are none if a surrogate is unpaired. -/
def charsOfCodes : List Nat → Option (List Char)
  | [] => some []
  | code :: rest =>
    if isHighSurrogate code then
      match rest with
      | low :: rest' =>
        if isLowSurrogate low then (charsOfCodes rest').map (pairedChar code low :: ·) else none
      | [] => none
    else if isLowSurrogate code then none
    else (charsOfCodes rest).map (Char.ofNat code :: ·)

/-- A string literal behind its opening quote. -/
def stringBody (cs : List Char) : Option (Option String × List Char) := do
  let (codes, rest) ← stringCodes cs
  return ((charsOfCodes codes).map String.ofList, rest)

/-! ## Values -/

mutual
/-- A value and what follows it. -/
def value : Nat → List Char → Option (Json × List Char)
  | 0, _ => none
  | fuel + 1, cs =>
    match skipBlanks cs with
    | 'n' :: 'u' :: 'l' :: 'l' :: rest => some (.null, rest)
    | 't' :: 'r' :: 'u' :: 'e' :: rest => some (.bool true, rest)
    | 'f' :: 'a' :: 'l' :: 's' :: 'e' :: rest => some (.bool false, rest)
    | '"' :: rest => do
      let (text, rest) ← stringBody rest
      return (.string text, rest)
    | '[' :: rest =>
      match skipBlanks rest with
      | ']' :: rest => some (.array [], rest)
      | _ => do
        let (items, rest) ← elements fuel rest
        return (.array items, rest)
    | '{' :: rest =>
      match skipBlanks rest with
      | '}' :: rest => some (.object [], rest)
      | _ => do
        let (fields, rest) ← members fuel rest
        return (.object fields, rest)
    | cs => number cs
/-- One or more items of an array, its closing bracket, and what follows it. -/
def elements : Nat → List Char → Option (List Json × List Char)
  | 0, _ => none
  | fuel + 1, cs => do
    let (item, rest) ← value fuel cs
    match skipBlanks rest with
    | ',' :: rest => do
      let (items, rest) ← elements fuel rest
      return (item :: items, rest)
    | ']' :: rest => return ([item], rest)
    | _ => none
/-- One or more fields of an object, its closing brace, and what follows it. -/
def members : Nat → List Char → Option (List (Option String × Json) × List Char)
  | 0, _ => none
  | fuel + 1, cs =>
    match skipBlanks cs with
    | '"' :: rest => do
      let (name, rest) ← stringBody rest
      match skipBlanks rest with
      | ':' :: rest => do
        let (field, rest) ← value fuel rest
        match skipBlanks rest with
        | ',' :: rest => do
          let (fields, rest) ← members fuel rest
          return ((name, field) :: fields, rest)
        | '}' :: rest => return ([(name, field)], rest)
        | _ => none
      | _ => none
    | _ => none
end

/-- Reads a whole text. Every second step of the recursion takes a character, so twice the length
of the text is enough fuel. -/
def parse? (text : String) : Option Json :=
  let cs := text.toList
  match value (2 * cs.length + 2) cs with
  | some (j, rest) => if (skipBlanks rest).isEmpty then some j else none
  | none => none

end GroovyIndex.Json
