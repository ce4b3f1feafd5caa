/-
This module holds the lines of an assembly unit. An instruction is written as a string of the host
language, tab and line end included.
-/
import MacroAssembler.Emission.Arm64
import MacroAssembler.Emission.Armv7
import MacroAssembler.Emission.Riscv
import MacroAssembler.Emission.X86

namespace MacroAssembler

inductive MachineInstruction
  | arm64 (instruction : Arm64.Instruction)
  | x86 (instruction : X86.Instruction)
  | riscv (instruction : Riscv.Instruction)
  | armv7 (instruction : Armv7.Instruction)
deriving DecidableEq, Repr

def MachineInstruction.text : MachineInstruction → String
  | .arm64 instruction => instruction.text
  | .x86 instruction => instruction.text
  | .riscv instruction => instruction.text
  | .armv7 instruction => instruction.text

inductive Directive
  | glue
  | global
  | globalExport
  | unalignedGlobal
  | unalignedGlobalExport
  | alignedGlobal (alignment : Int)
deriving DecidableEq, Repr

namespace Directive

def ofFlags (flags : LabelFlags) : Directive :=
  if flags.isGlobal then
    match flags.alignTo with
    | some alignment => .alignedGlobal alignment
    | none =>
      if flags.isAligned then if flags.isExported then .globalExport else .global
      else if flags.isExported then .unalignedGlobalExport else .unalignedGlobal
  else .glue

def text (name : String) : Directive → String
  | .glue => "OFFLINE_ASM_GLUE_LABEL(" ++ name ++ ")"
  | .global => "OFFLINE_ASM_GLOBAL_LABEL(" ++ name ++ ")"
  | .globalExport => "OFFLINE_ASM_GLOBAL_EXPORT_LABEL(" ++ name ++ ")"
  | .unalignedGlobal => "OFFLINE_ASM_UNALIGNED_GLOBAL_LABEL(" ++ name ++ ")"
  | .unalignedGlobalExport => "OFFLINE_ASM_UNALIGNED_GLOBAL_EXPORT_LABEL(" ++ name ++ ")"
  | .alignedGlobal alignment =>
    "OFFLINE_ASM_ALIGNED_GLOBAL_LABEL(" ++ name ++ ", " ++ Text.decimal alignment ++ ")"

end Directive

inductive LoweredOperand
  | target (target : Target)
  | plain (text : String)
deriving DecidableEq, Repr

def LoweredOperand.text : LoweredOperand → String
  | .target place => place.text
  | .plain content => content

inductive Line
  | label (directive : Directive) (name : String)
  | localLabel (symbol : String)
  | code (instruction : MachineInstruction) (comment : Value)
  | verbatim (text : String)
  | operand (operand : LoweredOperand)

namespace Line

def text : Line → String
  | .label directive name => directive.text name
  | .localLabel symbol => "OFFLINE_ASM_LOCAL_LABEL(" ++ symbol ++ ")"
  | .code instruction comment =>
    let content := "\"\\t" ++ instruction.text ++ "\\n\""
    if comment.isPresent then content ++ " // " ++ comment.display else content
  | .verbatim content => "\"" ++ content ++ "\\n\""
  | .operand content => content.text

def ofInstructions (comment : Value) : List MachineInstruction → List Line
  | [] => []
  | first :: rest => .code first comment :: rest.map fun instruction => .code instruction .null

/-- Lines between the marks that begin and end a unit. -/
def framed (lines : List String) : List String :=
  "OFFLINE_ASM_BEGIN" :: lines ++ ["OFFLINE_ASM_END"]

end Line

end MacroAssembler
