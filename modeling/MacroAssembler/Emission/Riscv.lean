/-
This module lowers statements to 64-bit RISC-V code. A stored immediate uses a second scratch
register, because the first one may hold the address.
-/
import MacroAssembler.Emission.Form

namespace MacroAssembler.Riscv

structure Address where
  offset : Int
  base : String
deriving DecidableEq, Repr

inductive Instruction
  | arithmetic (operation : Arithmetic) (destination left right : String)
  | addImmediate (destination left : String) (value : Int)
  | shiftLeft (destination source : String) (amount : Nat)
  | loadImmediate (destination : String) (value : Int)
  | loadAddress (destination : String) (target : Target)
  | move (destination source : String)
  | load (destination : String) (address : Address)
  | store (source : String) (address : Address)
  | jump (target : Target)
  | jumpRegister (register : String)
  | call (target : Target)
  | callRegister (register : String)
  | ret
  | branchIf (condition : Condition) (left right : String) (target : Target)
  | trap
  | nop
deriving DecidableEq, Repr

def Address.text (address : Address) : String :=
  Text.decimal address.offset ++ "(" ++ address.base ++ ")"

def Instruction.text : Instruction → String
  | .arithmetic operation destination left right =>
    operation.name ++ " " ++ destination ++ ", " ++ left ++ ", " ++ right
  | .addImmediate destination left value =>
    "addi " ++ destination ++ ", " ++ left ++ ", " ++ Text.decimal value
  | .shiftLeft destination source amount =>
    "slli " ++ destination ++ ", " ++ source ++ ", " ++ Text.decimal amount
  | .loadImmediate destination value => "li " ++ destination ++ ", " ++ Text.decimal value
  | .loadAddress destination target => "la " ++ destination ++ ", " ++ target.text
  | .move destination source => "mv " ++ destination ++ ", " ++ source
  | .load destination address => "ld " ++ destination ++ ", " ++ address.text
  | .store source address => "sd " ++ source ++ ", " ++ address.text
  | .jump target => "j " ++ target.text
  | .jumpRegister register => "jr " ++ register
  | .call target => "call " ++ target.text
  | .callRegister register => "jalr " ++ register
  | .ret => "ret"
  | .branchIf .equal left right target => "beq " ++ left ++ ", " ++ right ++ ", " ++ target.text
  | .branchIf .notEqual left right target =>
    "bne " ++ left ++ ", " ++ right ++ ", " ++ target.text
  | .trap => "ebreak"
  | .nop => "nop"

/-- The register in which addresses and immediates are built. -/
def scratch : String := "x31"

/-- The register in which a stored immediate is built. -/
def valueScratch : String := "x30"

def immediateText (value : Int) : String := Text.decimal value

/-! ### Memory -/

def addressOf (config : Configuration) (memory : Memory) : Checked Address :=
  match memory with
  | .direct _ base offset => do
    let value ← offset.immediateValue config
    if Bits.fitsSigned 11 value then
      let baseText ← base.registerText config
      return ⟨value, baseText⟩
    else memory.reject (.offsetTooWide value)
  | .indexed .. => do
    let shown ← memory.toNode.dump
    report (.cannotAddress config.architecture.name shown) memory.origin
  | .absolute .. => memory.reject (.absoluteUnsupported config.architecture.name)

def formAddress (config : Configuration) (memory : Memory) :
    Checked (List Instruction × Address) :=
  match memory with
  | .direct _ base offset => do
    let value ← offset.immediateValue config
    let baseText ← base.registerText config
    if Bits.fitsSigned 11 value then return ([], ⟨value, baseText⟩)
    else
      return ([.loadImmediate scratch value, .arithmetic .add scratch scratch baseText],
        ⟨0, scratch⟩)
  | .indexed origin base index scale offset => do
    let value ← offset.immediateValue config
    let indexText ← index.registerText config
    let found ← Node.scaleOf origin scale
    let baseText ← base.registerText config
    if Bits.fitsSigned 11 value then
      return ([.shiftLeft scratch indexText found.shift,
        .arithmetic .add scratch scratch baseText], ⟨value, scratch⟩)
    else memory.reject (.offsetTooWide value)
  | .absolute _ place => do
    let value ← place.immediateValue config
    return ([.loadImmediate scratch value], ⟨0, scratch⟩)

variable (config : Configuration) (statement : Statement)

def memoryOperand (node : Node) : Checked (List Instruction × Address) := do
  let memory ← statement.memory node
  formAddress config memory

/-! ### Statements -/

def arithmetic (operation : Arithmetic) (source left destination : Node) :
    Checked (List Instruction) := do
  let leftText ← statement.register config left
  let destinationText ← statement.register config destination
  if source.isLiteral then
    let magnitude ← source.immediateValue config
    let value := if operation = .sub then -magnitude else magnitude
    if Bits.fitsSigned 11 value then return [.addImmediate destinationText leftText value]
    else
      return [.loadImmediate scratch value, .arithmetic .add destinationText leftText scratch]
  else
    let sourceText ← statement.register config source
    return [.arithmetic operation destinationText leftText sourceText]

def storeSlots : Nat → List String → List Instruction
  | _, [] => []
  | slot, register :: rest => .store register ⟨slot * 8, "sp"⟩ :: storeSlots (slot + 1) rest

def loadSlots : Nat → List String → List Instruction
  | _, [] => []
  | slot, register :: rest => .load register ⟨slot * 8, "sp"⟩ :: loadSlots (slot + 1) rest

def pushed (names : List String) : List Instruction :=
  .addImmediate "sp" "sp" (-16) :: storeSlots 0 names

def popped (names : List String) : List Instruction :=
  loadSlots 0 names.reverse ++ [.addImmediate "sp" "sp" 16]

def loaded (source : Node) : Checked (String → List Instruction) := do
  let (lines, address) ← memoryOperand config statement source
  return fun destination => lines ++ [.load destination address]

/-- The register that holds what is stored, after the instruction that fills it. -/
def storedValue (source : Node) : Checked (List Instruction × String) :=
  if source.isLiteral then do
    let value ← source.immediateValue config
    if value = 0 then return ([], "zero")
    else return ([.loadImmediate valueScratch value], valueScratch)
  else do
    let sourceText ← statement.register config source
    return ([], sourceText)

def storeStatement : Checked (List Instruction) :=
  match statement.operands with
  | [source, destination] => do
    let (lines, register) ← storedValue config statement source
    let (addressLines, address) ← memoryOperand config statement destination
    return lines ++ addressLines ++ [.store register address]
  | _ => statement.rejectCount [2]

def loadPairStatement : Checked (List Instruction) :=
  match statement.operands with
  | [source, first, second] => do
    let memory ← statement.memory source
    let (firstLines, firstAddress) ← formAddress config memory
    let next ← memory.shifted config 8
    let (secondLines, secondAddress) ← formAddress config next
    let firstText ← statement.register config first
    let secondText ← statement.register config second
    return firstLines ++ .load firstText firstAddress ::
      (secondLines ++ [.load secondText secondAddress])
  | _ => statement.rejectCount [3]

def storePairStatement : Checked (List Instruction) :=
  match statement.operands with
  | [first, second, destination] => do
    let memory ← statement.memory destination
    let (firstLines, firstAddress) ← formAddress config memory
    let next ← memory.shifted config 8
    let (secondLines, secondAddress) ← formAddress config next
    let firstText ← statement.register config first
    let secondText ← statement.register config second
    return firstLines ++ .store firstText firstAddress ::
      (secondLines ++ [.store secondText secondAddress])
  | _ => statement.rejectCount [3]

/-- The register that holds the right side of a comparison, after the instruction that fills
it. -/
def comparedValue (right : Node) : Checked (List Instruction × String) :=
  if right.isLiteral then do
    let value ← right.immediateValue config
    return ([.loadImmediate scratch value], scratch)
  else do
    let rightText ← statement.register config right
    return ([], rightText)

def compared (condition : Condition) (left right : Node) :
    Checked (Target → List Instruction) := do
  let leftText ← statement.register config left
  let (lines, rightText) ← comparedValue config statement right
  return fun target => lines ++ [.branchIf condition leftText rightText target]

def lower (opcode : Opcode) : Emit (List Instruction) :=
  match opcode with
  | .addp | .addq => statement.combination (arithmetic config statement .add)
  | .subp | .subq => statement.combination (arithmetic config statement .sub)
  | .move =>
    statement.move config (fun target destination => .loadAddress destination target)
      (fun value destination => [.loadImmediate destination value])
      (fun source destination => .move destination source)
  | .push => statement.registers config pushed
  | .pop => statement.registers config popped
  | .loadp | .loadq => statement.load config (loaded config statement)
  | .storep | .storeq => storeStatement config statement
  | .loadpairq => loadPairStatement config statement
  | .storepairq => storePairStatement config statement
  | .jmp => statement.transfer config .jump .jumpRegister
  | .call => statement.transfer config .call .callRegister
  | .ret => statement.bare .ret
  | .bpeq => statement.branch (compared config statement .equal)
  | .bpneq => statement.branch (compared config statement .notEqual)
  | .trap => statement.bare .trap
  | .nop => statement.bare .nop

end MacroAssembler.Riscv
