/-
This module represents a set of characters by the runs of code points that lie outside and inside
of it in turn.
-/

namespace MacroAssembler.Text

/-- A set of code points, written as the lengths of its runs. The first run lies outside. -/
abbrev CodePointSet := List Nat

/-- Whether a code point lies in a set, given the runs from a code point on that is as far before it
as the last argument says, and whether the first of these runs lies inside. -/
def CodePointSet.holdsFrom (inside : Bool) : CodePointSet → Nat → Bool
  | [], _ => false
  | run :: rest, point =>
    if point < run then inside else holdsFrom (!inside) rest (point - run)

def CodePointSet.holds (set : CodePointSet) (c : Char) : Bool := set.holdsFrom false c.toNat

end MacroAssembler.Text
