/-!
# Sets of code points

A property of characters is kept as closed ranges of code points, ascending and apart. Because the
ranges ascend, a look-up stops at the first range that starts beyond the character.
-/

namespace GroovyIndex

/-- A set of code points as closed ranges, ascending and apart. -/
structure CodePoints where
  ranges : List (Nat × Nat)

namespace CodePoints

/-- Look-up in ascending ranges. -/
def search (code : Nat) : List (Nat × Nat) → Bool
  | [] => false
  | (low, high) :: rest =>
    if code < low then false else decide (code ≤ high) || search code rest

/-- Membership of a character. -/
def contains (s : CodePoints) (c : Char) : Bool := search c.toNat s.ranges

end CodePoints

end GroovyIndex
