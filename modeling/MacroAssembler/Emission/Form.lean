/-
This module holds the forms of statements that the machines have in common: what operands a
statement takes, in which order they are read, and what is reported when they do not fit.
-/
import MacroAssembler.Emission.Operand

namespace MacroAssembler.Statement

variable {ι : Type} (config : Configuration) (statement : Statement)

def bare (instruction : ι) : Checked (List ι) :=
  if statement.operands.isEmpty then .ok [instruction] else statement.rejectCount [0]

/-- A statement on a source, a left operand and a destination, which is the left operand unless it
is given. -/
def combination (build : Node → Node → Node → Checked (List ι)) : Checked (List ι) :=
  match statement.operands with
  | [source, left] => build source left left
  | [source, left, destination] => build source left destination
  | _ => statement.rejectCount [2, 3]

def registers (build : List String → List ι) : Checked (List ι) :=
  if statement.operands.length = 1 ∨ statement.operands.length = 2 then do
    let names ← statement.operands.mapM (statement.register config)
    return build names
  else statement.rejectCount [1, 2]

/-- Move a label, an immediate or a register into a register, which comes last. -/
def move (ofTarget : Target → String → ι) (ofValue : Int → String → List ι)
    (ofRegister : String → String → ι) : Emit (List ι) :=
  match statement.operands with
  | [source, destination] => do
    let destinationText ← statement.register config destination
    match ← source.target? with
    | some target => return [ofTarget target destinationText]
    | none =>
      if source.isLiteral then
        let value ← source.immediateValue config
        return ofValue value destinationText
      else
        let sourceText ← statement.register config source
        return [ofRegister sourceText destinationText]
  | _ => statement.rejectCount [2]

/-- Load a word into a register. The memory operand is read first and says how. -/
def load (read : Node → Checked (String → List ι)) : Checked (List ι) :=
  match statement.operands with
  | [source, destination] => do
    let build ← read source
    let destinationText ← statement.register config destination
    return build destinationText
  | _ => statement.rejectCount [2]

def transfer (toLabel : Target → ι) (toRegister : String → ι) : Emit (List ι) :=
  match statement.operands with
  | [place] =>
    if place.isRegister then do
      let text ← place.registerText config
      return [toRegister text]
    else do
      let target ← statement.target place
      return [toLabel target]
  | _ => statement.rejectCount [1]

/-- Branch if a comparison holds. The comparison says how. -/
def branch (compare : Node → Node → Checked (Target → List ι)) : Emit (List ι) :=
  match statement.operands with
  | [left, right, place] => do
    let (first, second) := comparisonOrder left right
    let build ← compare first second
    let target ← statement.target place
    return build target
  | _ => statement.rejectCount [3]

end MacroAssembler.Statement
