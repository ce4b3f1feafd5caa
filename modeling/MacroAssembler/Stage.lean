/-
This module holds the stages of a compilation run. A run passes through them in order, or is
aborted.
-/

namespace MacroAssembler

inductive Stage
  | parsed
  | interned
  | folded
  | expanded
  | lowered
  | emitted
  | aborted
deriving DecidableEq, Repr, Inhabited

def Stage.name : Stage → String
  | .parsed => "parsed"
  | .interned => "interned"
  | .folded => "folded"
  | .expanded => "expanded"
  | .lowered => "lowered"
  | .emitted => "emitted"
  | .aborted => "aborted"

end MacroAssembler
