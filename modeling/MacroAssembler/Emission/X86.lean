/-
This module lowers statements to 64-bit x86 code in the AT&T style, where the destination comes
last. An instruction has two operands, so an addition into a third register is preceded by a move.
-/
import MacroAssembler.Emission.Form

namespace MacroAssembler.X86

inductive Operand
  | immediate (value : Int)
  | register (name : String)
deriving DecidableEq, Repr

inductive Address
  | direct (offset : Int) (base : String)
  | indexed (offset : Int) (base index : String) (scale : Scale)
  | absolute (place : Int)
deriving DecidableEq, Repr

inductive Instruction
  | arithmetic (operation : Arithmetic) (source : Operand) (destination : String)
  | negate (destination : String)
  | move (source : Operand) (destination : String)
  | moveWide (value : Int) (destination : String)
  | load (address : Address) (destination : String)
  | store (source : Operand) (address : Address)
  | addressOf (target : Target) (destination : String)
  | push (source : String)
  | pop (destination : String)
  | jump (target : Target)
  | jumpRegister (register : String)
  | call (target : Target)
  | callRegister (register : String)
  | ret
  | compare (right : Operand) (left : String)
  | jumpIf (condition : Condition) (target : Target)
  | trap
  | nop
deriving DecidableEq, Repr

def immediateText (value : Int) : String := "$" ++ Text.decimal value

def Operand.text : Operand → String
  | .immediate value => immediateText value
  | .register name => name

def Address.text : Address → String
  | .direct offset base => Text.decimal offset ++ "(" ++ base ++ ")"
  | .indexed offset base index scale =>
    Text.decimal offset ++ "(" ++ base ++ ", " ++ index ++ ", " ++ scale.text ++ ")"
  | .absolute place => Text.decimal place

def Instruction.text : Instruction → String
  | .arithmetic operation source destination =>
    operation.name ++ "q " ++ source.text ++ ", " ++ destination
  | .negate destination => "negq " ++ destination
  | .move source destination => "movq " ++ source.text ++ ", " ++ destination
  | .moveWide value destination => "movabsq " ++ immediateText value ++ ", " ++ destination
  | .load address destination => "movq " ++ address.text ++ ", " ++ destination
  | .store source address => "movq " ++ source.text ++ ", " ++ address.text
  | .addressOf target destination => "leaq " ++ target.text ++ "(%rip), " ++ destination
  | .push source => "push " ++ source
  | .pop destination => "pop " ++ destination
  | .jump target => "jmp " ++ target.text
  | .jumpRegister register => "jmp *" ++ register
  | .call target => "call " ++ target.text
  | .callRegister register => "call *" ++ register
  | .ret => "ret"
  | .compare right left => "cmpq " ++ right.text ++ ", " ++ left
  | .jumpIf .equal target => "je " ++ target.text
  | .jumpIf .notEqual target => "jne " ++ target.text
  | .trap => "int $3"
  | .nop => "nop"

/-- The register in which wide immediates are built. -/
def scratch : String := "%r11"

/-! ### Operands -/

def addressOf (config : Configuration) : Memory → Checked Address
  | .direct _ base offset => do
    let value ← offset.immediateValue config
    let baseText ← base.registerText config
    return .direct value baseText
  | .indexed origin base index scale offset => do
    let baseText ← base.registerText config
    let indexText ← index.registerText config
    let value ← offset.immediateValue config
    let found ← Node.scaleOf origin scale
    return .indexed value baseText indexText found
  | .absolute _ place => do
    let value ← place.immediateValue config
    return .absolute value

variable (config : Configuration) (statement : Statement)

def memoryOperand (node : Node) : Checked Address := do
  let memory ← statement.memory node
  addressOf config memory

/-- A source operand, after the instruction that builds it if it is a wide immediate. -/
def source (node : Node) : Checked (List Instruction × Operand) :=
  if node.isLiteral then do
    let value ← node.immediateValue config
    if Bits.fitsSigned 31 value then return ([], .immediate value)
    else return ([.moveWide value scratch], .register scratch)
  else do
    let text ← statement.register config node
    return ([], .register text)

/-! ### Statements -/

/-- Apply an operation to a left operand and a source, and put the result in a register. -/
def combine (operation : Arithmetic) (operand : Operand) (left destination : String) :
    List Instruction :=
  if left = destination then [.arithmetic operation operand destination]
  else if operand.text = destination then
    match operation with
    | .add => [.arithmetic .add (.register left) destination]
    | .sub => [.negate destination, .arithmetic .add (.register left) destination]
  else [.move (.register left) destination, .arithmetic operation operand destination]

def arithmetic (operation : Arithmetic) (right left destination : Node) :
    Checked (List Instruction) := do
  let leftText ← statement.register config left
  let destinationText ← statement.register config destination
  let (lines, operand) ← source config statement right
  return lines ++ combine operation operand leftText destinationText

def immediateMove (value : Int) (destination : String) : List Instruction :=
  if Bits.fitsSigned 31 value then [.move (.immediate value) destination]
  else [.moveWide value destination]

def loaded (place : Node) : Checked (String → List Instruction) := do
  let address ← memoryOperand config statement place
  return fun destination => [.load address destination]

def storeStatement : Checked (List Instruction) :=
  match statement.operands with
  | [right, place] => do
    let (lines, operand) ← source config statement right
    let address ← memoryOperand config statement place
    return lines ++ [.store operand address]
  | _ => statement.rejectCount [2]

def loadPairStatement : Checked (List Instruction) :=
  match statement.operands with
  | [place, first, second] => do
    let memory ← statement.memory place
    let firstText ← statement.register config first
    let secondText ← statement.register config second
    let address ← addressOf config memory
    let next ← memory.shifted config 8
    let nextAddress ← addressOf config next
    return [.load address firstText, .load nextAddress secondText]
  | _ => statement.rejectCount [3]

def storePairStatement : Checked (List Instruction) :=
  match statement.operands with
  | [first, second, place] => do
    let firstText ← statement.register config first
    let secondText ← statement.register config second
    let memory ← statement.memory place
    let address ← addressOf config memory
    let next ← memory.shifted config 8
    let nextAddress ← addressOf config next
    return [.store (.register firstText) address, .store (.register secondText) nextAddress]
  | _ => statement.rejectCount [3]

def compared (condition : Condition) (left right : Node) :
    Checked (Target → List Instruction) := do
  let leftText ← statement.register config left
  let (lines, operand) ← source config statement right
  return fun target => lines ++ [.compare operand leftText, .jumpIf condition target]

def lower (opcode : Opcode) : Emit (List Instruction) :=
  match opcode with
  | .addp | .addq => statement.combination (arithmetic config statement .add)
  | .subp | .subq => statement.combination (arithmetic config statement .sub)
  | .move =>
    statement.move config .addressOf immediateMove
      (fun source destination => .move (.register source) destination)
  | .push => statement.registers config (List.map .push)
  | .pop => statement.registers config (List.map .pop)
  | .loadp | .loadq => statement.load config (loaded config statement)
  | .storep | .storeq => storeStatement config statement
  | .loadpairq => loadPairStatement config statement
  | .storepairq => storePairStatement config statement
  | .jmp => statement.transfer config .jump .jumpRegister
  | .call => statement.transfer config .call .callRegister
  | .ret => statement.bare .ret
  | .bpeq => statement.branch (compared config statement .equal)
  | .bpneq => statement.branch (compared config statement .notEqual)
  | .trap => statement.bare .trap
  | .nop => statement.bare .nop

end MacroAssembler.X86
