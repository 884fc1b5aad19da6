import GroovyIndex.Json.Reader
import GroovyIndex.Json.Writer

/-!
# Decoding records

How values of a type are written as JSON and read back. A record is an object of its parts, or an
array of all of them in order. Decoding refuses repeated fields, missing ones unless they are
optional, and too many levels of arrays and objects; a skipped field may be nested at will.
-/

namespace GroovyIndex

/-- How many arrays and objects a decoded text may open inside one another. -/
def nestingLimit : Nat := 127

/-- A JSON form of the values of a type. -/
class Codec (α : Type) where
  encode : α → Json
  /-- Reads a value while so many further levels may be opened. -/
  decode? (levels : Nat) (j : Json) : Option α

export Codec (encode decode?)

namespace Json

/-! ## Shapes -/

/-- Opens an array. -/
def items? : Nat → Json → Option (Nat × List Json)
  | levels + 1, .array items => some (levels, items)
  | _, _ => none

/-- The values of the named fields of an object; a field of no name or a repeated one refuses it. -/
def select? (names : List String) (fields : List (Option String × Json)) :
    Option (List (Option Json)) :=
  if fields.all (·.1.isSome) &&
      names.all (fun name => fields.countP (·.1 == some name) ≤ 1) then
    some (names.map fun name => fields.lookup (some name))
  else none

/-- Opens a record with the named parts. -/
def record? (names : List String) : Nat → Json → Option (Nat × List (Option Json))
  | levels + 1, .object fields => (select? names fields).map (levels, ·)
  | levels + 1, .array items =>
    if items.length = names.length then some (levels, items.map some) else none
  | _, _ => none

/-- Opens a record whose parts all have defaults: an array may stop early. -/
def openRecord? (names : List String) : Nat → Json → Option (Nat × List (Option Json))
  | levels + 1, .object fields => (select? names fields).map (levels, ·)
  | levels + 1, .array items =>
    if items.length ≤ names.length then
      some (levels, items.map some ++ List.replicate (names.length - items.length) none)
    else none
  | _, _ => none

/-- A choice without parts: its name, or an object whose only field has that name and is null. -/
def choice? : Nat → Json → Option String
  | _, .string text => text
  | _ + 1, .object [(name, .null)] => name
  | _, _ => none

/-! ## Parts of a record -/

variable {α : Type} [Codec α]

/-- A part that must be there. -/
def required (levels : Nat) : Option Json → Option α
  | some j => decode? levels j
  | none => none

/-- A part that may be missing or null. -/
def optional (levels : Nat) : Option Json → Option (Option α)
  | none | some .null => some none
  | some j => (decode? levels j).map some

/-- A part that takes a default when it is missing. -/
def defaulting (default : α) (levels : Nat) : Option Json → Option α
  | some j => decode? levels j
  | none => some default

/-- A part that may be absent, as JSON. -/
def ofOption : Option α → Json
  | some a => encode a
  | none => .null

/-- Reads a whole text as a value. -/
def decodeText? (text : String) : Option α := do
  decode? nestingLimit (← parse? text)

end Json

/-! ## Plain values -/

instance : Codec Bool where
  encode b := .bool b
  decode?
    | _, .bool b => some b
    | _, _ => none

instance : Codec String where
  encode s := .string (some s)
  decode?
    | _, .string text => text
    | _, _ => none

/-- Naturals of a bounded width, written as integers. -/
def Json.natBelow? (bound : Nat) : Json → Option Nat
  | .integer (.ofNat n) => if n < bound then some n else none
  | _ => none

/-- Lines, columns and counts have 64 bits. -/
instance : Codec Nat where
  encode n := .integer n
  decode? _ j := j.natBelow? UInt64.size

instance {α : Type} [Codec α] : Codec (Option α) where
  encode := Json.ofOption
  decode? levels j := Json.optional levels (some j)

instance {α : Type} [Codec α] : Codec (List α) where
  encode xs := .array (xs.map encode)
  decode? levels j := do
    let (levels, items) ← j.items? levels
    items.mapM (decode? levels)

end GroovyIndex
