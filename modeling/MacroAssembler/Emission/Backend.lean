/-
This module lowers and emits a tree for the architecture of a configuration: as assembly for the
machines, and as host code for the interpreter loop.
-/
import MacroAssembler.Emission.HostCode
import MacroAssembler.Text.SnakeCase

namespace MacroAssembler.Backend

def ruleName (kind : String) : String := "lower_" ++ Text.snakeCase kind

variable (config : Configuration)

/-- Lower a node to the text of an operand or to the texts of statements. -/
def lower (node : Node) : Emit (Lowered String) := do
  if config.architecture.emitsHostCode then HostCode.lower config node
  else
    match ← Assembly.lower config node with
    | .operand operand => return .operand operand.text
    | .statements lines => return .statements (lines.map Line.text)

def lowerStatements (node : Node) : Emit (List String) := do
  let code ← lower config node
  return HostCode.statementsOf code

def frame (statements : List String) : List String :=
  if config.architecture.emitsHostCode then HostCode.framed statements
  else Line.framed statements

def emit (tree : Node) : Emit (List String) := do
  let statements ← lowerStatements config tree
  return frame config statements

end MacroAssembler.Backend
