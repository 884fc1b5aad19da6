/-!
# JSON values

A value as its text spells it out. Objects keep repeated fields, because what a repetition means
is for the reader of a record to say. A literal that escapes half of a surrogate pair alone is
well-formed JSON and denotes no text; `none` stands for it.
-/

namespace GroovyIndex

/-- A JSON value. -/
inductive Json where
  | null
  | bool (value : Bool)
  | integer (value : Int)
  /-- A number written with a fraction or an exponent, or as a negative zero. -/
  | decimal (literal : String)
  | string (text : Option String)
  | array (items : List Json)
  | object (fields : List (Option String × Json))
  deriving Repr

namespace Json

/-- A string value. -/
def ofString (s : String) : Json := .string (some s)

/-- A number value. -/
def ofNat (n : Nat) : Json := .integer n

/-- An object with the given fields. -/
def ofFields (fields : List (String × Json)) : Json :=
  .object (fields.map fun (name, value) => (some name, value))

mutual
/-- How deeply arrays and objects are nested. -/
def nesting : Json → Nat
  | .array items => nestingItems items + 1
  | .object fields => nestingFields fields + 1
  | _ => 0
/-- How deeply the items of an array are nested. -/
def nestingItems : List Json → Nat
  | [] => 0
  | item :: rest => max item.nesting (nestingItems rest)
/-- How deeply the fields of an object are nested. -/
def nestingFields : List (Option String × Json) → Nat
  | [] => 0
  | (_, value) :: rest => max value.nesting (nestingFields rest)
end

end Json

end GroovyIndex
