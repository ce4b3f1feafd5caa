/-
This module holds source locations. A node carries the location it was written at, and
diagnostics show it; a node that was never written anywhere has the location `nowhere`.
-/
import MacroAssembler.Text.Integer

namespace MacroAssembler

/-- A place in a source file. Lines and columns count from one, and zero means unknown. -/
structure Origin where
  file : String
  line : Int := 0
  column : Int := 0
deriving DecidableEq, Repr, Inhabited

namespace Origin

/-- The location of nodes that stand in no file. -/
def nowhere : Origin := ⟨"<none>", 0, 0⟩

/-- A location as diagnostics show it, without a column that is unknown. -/
def text (origin : Origin) : String :=
  let place := origin.file ++ ":" ++ Text.decimal origin.line
  if origin.column = 0 then place else place ++ ":" ++ Text.decimal origin.column

end Origin

end MacroAssembler
