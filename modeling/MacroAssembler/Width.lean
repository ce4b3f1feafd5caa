/-
This module builds the entry points of opcodes that exist in three operand widths.

A host can ask for the entry points directly. Units get the same shape by the macros of the prelude:
`narrow`, `wide16` and `wide32` each select one of three macros, `commonOp` lays out the three entry
points, and `op` does so for an opcode whose wide forms trap.
-/
import MacroAssembler.SymbolTable

namespace MacroAssembler

inductive Width
  | narrow
  | wide16
  | wide32
deriving DecidableEq, Repr

namespace Width

/-- All widths, in the order of their entry points. -/
def all : List Width := [.narrow, .wide16, .wide32]

def suffix : Width → String
  | .narrow => ""
  | .wide16 => "_wide16"
  | .wide32 => "_wide32"

def selector : Width → String
  | .narrow => "narrow"
  | .wide16 => "wide16"
  | .wide32 => "wide32"

def labelName (width : Width) (base : String) : String := base ++ width.suffix

end Width

namespace Specialization

/-- A step that interns names and may fail. -/
abbrev Build := Action SymbolTable

def onTable {α : Type} (change : SymbolTable → α × SymbolTable) : Build α :=
  Action.ofFunction fun table =>
    let (result, table) := change table
    (.ok result, table)

def bareInstruction (origin : Origin) (opcode : String) : Node :=
  .instruction origin opcode [] .null

def invocation (origin : Origin) (name : String) (operands : List Node) : Node :=
  .call origin name operands .null .null

def anonymous (origin : Origin) (parameters statements : List Node) : Node :=
  .definition origin .null parameters (.sequence origin statements)

/-- The statements after every entry point: two traps when assertions are enabled. -/
def debugTrailer (origin : Origin) : Build Node := do
  let setting ← onTable fun table => table.setting "ASSERT_ENABLED" origin
  return .conditional origin setting
    (.sequence origin [bareInstruction origin "break", bareInstruction origin "break"])
    (.skip origin)

def entries (label : String) (prologue : Node) (body : Width → Build Node) (origin : Origin)
    (trailer : Node) : List Width → Build (List (Width × Label) × List Node)
  | [] => return ([], [])
  | width :: rest => do
    let mark ← onTable fun table => table.labelDefinition (width.labelName label) origin
    let content ← body width
    let (marks, items) ← entries label prologue body origin trailer rest
    return ((width, mark) :: marks, .label mark :: prologue :: content :: trailer :: items)

/-- The three entry points of an opcode, with their labels. The origin is that of the prologue
unless it is given, and the trailer is the debug trailer unless it is given. -/
def specialize (label : String) (prologue : Node) (body : Width → Build Node)
    (origin : Option Origin) (trailer : Option Node) : Build (List (Width × Label) × Node) := do
  let place := origin.getD prologue.origin
  let ending ←
    match trailer with
    | some given => pure given
    | none => debugTrailer place
  let (marks, items) ← entries label prologue body place ending Width.all
  return (marks, .sequence place items)

/-! ### The prelude -/

def variableNamed (origin : Origin) (name : String) : Build Node :=
  onTable fun table => table.variableNamed name origin

def chosen : Width → String
  | .narrow => "narrowFn"
  | .wide16 => "wide16Fn"
  | .wide32 => "wide32Fn"

/-- The macro that selects a width: it invokes its last parameter with the one for the width. -/
def selectorMacro (origin : Origin) (width : Width) : Build Node := do
  let functions ← Width.all.mapM fun other => variableNamed origin (chosen other)
  let continuation ← variableNamed origin "k"
  let operand ← variableNamed origin (chosen width)
  return .definition origin (.text width.selector) (functions ++ [continuation])
    (.sequence origin [invocation origin "k" [operand]])

/-- The label that the prelude makes entry points for. Its parameter is filled in on expansion. -/
def commonLabel : String := "_%label%"

/-- The macro that lays out the entry points of an opcode. -/
def commonMacro (origin : Origin) : Build Node := do
  let label ← variableNamed origin "label"
  let prologue ← variableNamed origin "prologue"
  let function ← variableNamed origin "fn"
  let body := fun (width : Width) => (do
    let selector ← variableNamed origin width.selector
    return invocation origin "fn" [selector] : Build Node)
  let (_, tree) ← specialize commonLabel (bareInstruction origin "prologue") body (some origin)
    none
  return .definition origin (.text "commonOp") [label, prologue, function] tree

/-- The macro for opcodes whose wide forms trap. -/
def narrowMacro (origin : Origin) : Build Node := do
  let label ← variableNamed origin "l"
  let function ← variableNamed origin "fn"
  let size ← variableNamed origin "size"
  let generator ← variableNamed origin "gen"
  let trap := anonymous origin [] [bareInstruction origin "break"]
  let generate := anonymous origin [generator] [bareInstruction origin "gen"]
  let select := anonymous origin [size]
    [invocation origin "size" [function, trap, trap, generate]]
  return .definition origin (.text "op") [label, function]
    (.sequence origin
      [invocation origin "commonOp" [label, anonymous origin [] [], select]])

/-- The macros of the prelude, in the order of their definition. -/
def prelude (origin : Option Origin) : Build (List Node) := do
  let place := origin.getD ⟨"<prelude>", 0, 0⟩
  let selectors ← Width.all.mapM (selectorMacro place)
  let common ← commonMacro place
  let narrow ← narrowMacro place
  return selectors ++ [common, narrow]

end Specialization

end MacroAssembler
