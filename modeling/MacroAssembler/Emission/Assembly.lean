/-
This module lowers a tree to the lines of an assembly unit.

Lowering expects a tree that was folded and expanded. What folding or expansion should have
removed is reported as such.
-/
import MacroAssembler.Emission.Line

namespace MacroAssembler

inductive Lowered (α : Type)
  | operand (text : String)
  | statements (lines : List α)

namespace Assembly

inductive Code
  | operand (operand : LoweredOperand)
  | statements (lines : List Line)

/-- Opcodes that emit nothing: annotations and the tagging of pointers. -/
def silentOpcodes : List String :=
  ["localAnnotation", "globalAnnotation", "tagCodePtr", "tagReturnAddress",
   "untagReturnAddress", "removeCodePtrTag", "untagArrayPtr", "removeArrayPtrTag"]

/-- The text of an operand that is passed on as it is: a string without its quotes, anything else
as the tree shows it. -/
def verbatimPart : Node → Checked Value
  | .text _ value => .ok (.text value)
  | other => other.spelling

def verbatimText (operands : List Node) : Checked String := do
  let parts ← operands.mapM verbatimPart
  joinTexts " " parts

/-! ### What the architectures decide -/

def immediateText : Architecture → Int → String
  | .arm64, value => Arm64.immediateText value
  | .arm64e, value => Arm64.immediateText value
  | .x86, value => X86.immediateText value
  | .riscv, value => Riscv.immediateText value
  | .armv7, value => Armv7.immediateText value
  | .loop, value => Text.decimal value

def memoryText (config : Configuration) (memory : Memory) : Checked String :=
  match config.architecture with
  | .x86 => (X86.addressOf config memory).map X86.Address.text
  | .riscv => (Riscv.addressOf config memory).map Riscv.Address.text
  | .armv7 => (Armv7.addressOf config memory).map Armv7.Address.text
  | _ => (Arm64.addressOf config memory).map Arm64.Address.text

def trap : Architecture → MachineInstruction
  | .x86 => .x86 .trap
  | .riscv => .riscv .trap
  | .armv7 => .armv7 .trap
  | _ => .arm64 .trap

def instructions? (config : Configuration) (statement : Statement) (opcode : Opcode) :
    Option (Emit (List MachineInstruction)) :=
  match config.architecture with
  | .x86 => some do
    let lowered ← X86.lower config statement opcode
    return lowered.map MachineInstruction.x86
  | .riscv => some do
    let lowered ← Riscv.lower config statement opcode
    return lowered.map MachineInstruction.riscv
  | .armv7 =>
    match Armv7.lower? config statement opcode with
    | some lower => some do
      let lowered ← lower
      return lowered.map MachineInstruction.armv7
    | none => none
  | _ => some do
    let lowered ← Arm64.lower config statement opcode
    return lowered.map MachineInstruction.arm64

/-! ### Statements -/

variable (config : Configuration)

def lowerStatement (statement : Statement) : Emit (List Line) := do
  if silentOpcodes.contains statement.opcode then return []
  else if statement.opcode = "emit" then
    let text ← verbatimText statement.operands
    return [.verbatim text]
  else
    match (Opcode.ofName? statement.opcode).bind (instructions? config statement) with
    | some lower =>
      let lowered ← lower
      return Line.ofInstructions statement.comment lowered
    | none =>
      let construct ← statement.toNode.construct
      report (.unhandledOpcode statement.opcode config.architecture.name)
        statement.origin construct

/-- Report a node that an earlier pass should have removed, with its text. -/
def rejectNode {α : Type} (cause : Cause) (node : Node) : Checked α := do
  let construct ← node.construct
  report cause node.origin construct

def valueText (node : Node) : Checked String := do
  let value ← node.immediateValue config
  return immediateText config.architecture value

def plainText (node : Node) : Checked String :=
  match node with
  | .text .. => rejectNode .strayString node
  | .register .. => node.registerText config
  | .var _ => node.registerText config
  | .setting .. => rejectNode .unfoldedExpression node
  | .truth _ => rejectNode .unfoldedExpression node
  | .binary _ operator _ _ =>
    if operator.isLogical then rejectNode .unfoldedExpression node
    else valueText config node
  | .unary _ operator _ =>
    if operator.isLogical then rejectNode .unfoldedExpression node
    else valueText config node
  | .address origin base offset => memoryText config (.direct origin base offset)
  | .indexed origin base index scale offset =>
    memoryText config (.indexed origin base index scale offset)
  | .absolute origin place => memoryText config (.absolute origin place)
  | other => valueText config other

def lowerOperand (node : Node) : Emit LoweredOperand := do
  match ← node.target? with
  | some target => return .target target
  | none =>
    let text ← plainText config node
    return .plain text

def linesOf : Code → List Line
  | .statements lines => lines
  | .operand operand => if operand.text = "" then [] else [.operand operand]

mutual

def lower : Node → Emit Code
  | .label mark => do
    let flags := (← get).flagsOf mark.name
    return .statements [.label (.ofFlags flags) mark.name]
  | .localLabel mark => do
    let symbol ← mark.symbol
    return .statements [.localLabel symbol]
  | .skip _ => return .statements []
  | .constant .. => return .statements []
  | .trap _ => return .statements [.code (trap config.architecture) .null]
  | .conditional origin predicate _ _ => do
    let shown ← predicate.dump
    report .unfoldedConditional origin (some ("if " ++ shown))
  | .definition origin name _ _ =>
    report (.unexpandedMacro (name.orElse (.text "<anonymous>")).display) origin
  | .call origin name operands comment writtenName =>
    rejectNode (.unexpandedCall (writtenName.orElse (.text name)).display)
      (.call origin name operands comment writtenName)
  | .instruction origin opcode operands comment => do
    let lines ← lowerStatement config ⟨origin, opcode, operands, comment⟩
    return .statements lines
  | .sequence _ items => do
    let lines ← lowerItems items
    return .statements lines
  | other => do
    let operand ← lowerOperand config other
    return .operand operand

def lowerItems : List Node → Emit (List Line)
  | [] => return []
  | item :: rest => do
    let first ← lower item
    let others ← lowerItems rest
    return linesOf first ++ others

end

end Assembly

end MacroAssembler
