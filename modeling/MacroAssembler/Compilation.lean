/-
This module runs the passes on a unit.

Every pass takes a run one stage further. A pass that is asked for in another stage is refused and
changes nothing. A diagnostic in a pass aborts the run for good; a fault does not, since it says
nothing about the unit.
-/
import MacroAssembler.Document.Loader
import MacroAssembler.Emission.Backend
import MacroAssembler.Expansion.Expander
import MacroAssembler.Width

namespace MacroAssembler

structure Emission where
  backend : String
  lines : List String
  externLabels : List String
  /-- The labels that were used before they were defined. -/
  referencedLabels : List String
deriving DecidableEq, Repr

def Emission.text (emission : Emission) : String :=
  if emission.lines.isEmpty then "" else "\n".intercalate emission.lines ++ "\n"

structure Compilation where
  configuration : Configuration
  table : SymbolTable
  /-- Whether the macros of the prelude are added that the unit does not define. -/
  includePrelude : Bool
  /-- How deep invocations may nest. -/
  limit : Int
  stage : Stage := .parsed
  /-- The tree after the last pass. -/
  tree : Option Node := none
  statements : List String := []
  emission : Option Emission := none
  notices : List Notice := []

namespace Compilation

abbrev Run := Action Compilation

def start (configuration : Configuration) (table : SymbolTable := .empty)
    (includePrelude : Bool := false) (limit : Int := Expander.defaultLimit) : Compilation :=
  { configuration := configuration
    table := table.resetReferenced
    includePrelude := includePrelude
    limit := limit }

/-! ### Stages -/

def backendName (run : Compilation) : String := run.configuration.architecture.name

def note (notice : Notice) : Run Unit :=
  modify fun run => { run with notices := run.notices ++ [notice] }

def requireStage (expected : Stage) (action : String) : Run Unit := do
  let stage := (← get).stage
  if stage = .aborted then report (.afterAbort action)
  else if stage ≠ expected then report (.outOfOrder action stage.name expected.name)

def advance (stage : Stage) : Run Unit := do
  let run ← get
  note (.advanced run.backendName run.stage stage)
  modify fun run => { run with stage := stage }

def aborted (run : Compilation) (problem : Diagnostic) : Compilation :=
  { run with
    stage := .aborted
    notices := run.notices ++ [.aborted run.backendName run.stage problem.message] }

def guarded {α : Type} (step : Run α) : Run α :=
  Action.ofFunction fun run =>
    match step.perform run with
    | (.error (.diagnostic problem), after) =>
      (.error (.diagnostic problem), after.aborted problem)
    | other => other

def onTable {α : Type} (step : Action SymbolTable α) : Run α :=
  Action.within Compilation.table (fun run table => { run with table := table }) step

/-- The tree of a run. Before a tree is accepted it is empty. -/
def currentTree (run : Compilation) : Node := run.tree.getD (.sequence .nowhere [])

def keepTree (stage : Stage) (tree : Node) : Run Node := do
  modify fun run => { run with tree := some tree }
  advance stage
  return tree

/-! ### The prelude -/

def definedMacros : List Node → Checked (List Name)
  | [] => .ok []
  | .definition _ name _ _ :: rest =>
    if name.isPresent then do
      let first ← name.toName
      let others ← definedMacros rest
      return first :: others
    else definedMacros rest
  | _ :: rest => definedMacros rest

def definesOneOf (names : List Name) : Node → Bool
  | .definition _ (.text name) _ _ => names.contains (.text name)
  | _ => false

/-- A tree with the macros of the prelude in front that it does not define itself. -/
def withPrelude (tree : Node) : Run Node := do
  let defined ← definedMacros tree.statements
  let definitions ← onTable (Specialization.prelude none)
  let added := definitions.filter fun definition => !definesOneOf defined definition
  note (.specialized Specialization.commonLabel Width.all.length)
  note (.preludeAdded added.length)
  return .sequence tree.origin (added ++ tree.statements)

/-! ### Passes -/

def loadTree (document : Value) (filename : String) : Run Node := do
  let (tree, loaded) ← onTable (Action.ofFunction fun table => table.load document filename)
  note (.loaded loaded filename)
  return tree

/-- Take a tree whose names are interned in the table of the run. -/
def accept (tree : Node) : Run Node := do
  requireStage .parsed "accept"
  let tree ← if (← get).includePrelude then withPrelude tree else pure tree
  keepTree .interned tree

def load (document : Value) (filename : String) : Run Node := do
  requireStage .parsed "load"
  let tree ← guarded (loadTree document filename)
  accept tree

def fold : Run Node := do
  requireStage .interned "fold"
  let run ← get
  let (tree, counts) ← guarded (run.currentTree.foldedWith run.configuration)
  note (.folded counts run.configuration.describe)
  keepTree .folded tree

def expandTree (tree : Node) : Run Node :=
  Action.ofFunction fun run =>
    let (outcome, state) := (Expander.expand run.limit tree).perform { table := run.table }
    (outcome, { run with table := state.table, notices := run.notices ++ state.notices })

def expand : Run Node := do
  requireStage .folded "expand"
  let tree ← guarded (expandTree (← get).currentTree)
  keepTree .expanded tree

def lower : Run (List String) := do
  requireStage .expanded "lower"
  let run ← get
  let statements ← guarded (onTable (Backend.lowerStatements run.configuration run.currentTree))
  modify fun run => { run with statements := statements }
  advance .lowered
  return statements

def emit : Run Emission := do
  requireStage .lowered "emit"
  let run ← get
  let emission : Emission := {
    backend := run.backendName
    lines := Backend.frame run.configuration run.statements
    externLabels := run.table.unresolved
    referencedLabels := run.table.referenced }
  modify fun run => { run with emission := some emission }
  advance .emitted
  note (.emitted run.backendName emission.lines.length emission.externLabels.length)
  return emission

def finish : Run Emission := do
  let _ ← fold
  let _ ← expand
  let _ ← lower
  emit

def runDocument (document : Value) (filename : String) : Run Emission := do
  let _ ← load document filename
  finish

/-- Run all passes on a tree whose names are interned in the table of the run. -/
def runTree (tree : Node) : Run Emission := do
  let _ ← accept tree
  finish

end Compilation

end MacroAssembler
