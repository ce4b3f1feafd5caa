/-
This module lowers statements to 32-bit ARM code. There are no eight-byte forms. Immediates that
an instruction cannot hold are built in a scratch register from two halves of sixteen bits.
-/
import MacroAssembler.Emission.Form

namespace MacroAssembler.Armv7

inductive Address
  | offset (base : String) (offset : Int)
  | index (base index : String) (shift : Nat)
deriving DecidableEq, Repr

inductive Instruction
  | arithmetic (operation : Arithmetic) (destination left right : String)
  | arithmeticImmediate (operation : Arithmetic) (destination left : String) (value : Int)
  | move (destination source : String)
  | moveLow (destination : String) (half : Nat)
  | moveHigh (destination : String) (half : Nat)
  | addressOf (destination : String) (target : Target)
  | load (destination : String) (address : Address)
  | store (source : String) (address : Address)
  | push (source : String)
  | pop (destination : String)
  | branch (target : Target)
  | branchRegister (register : String)
  | call (target : Target)
  | callRegister (register : String)
  | ret
  | compare (left right : String)
  | compareImmediate (left : String) (value : Int)
  | branchIf (condition : Condition) (target : Target)
  | trap
  | nop
deriving DecidableEq, Repr

def Address.text : Address → String
  | .offset base distance => "[" ++ base ++ ", #" ++ Text.decimal distance ++ "]"
  | .index base step shift =>
    "[" ++ base ++ ", " ++ step ++ ", lsl #" ++ Text.decimal shift ++ "]"

def Instruction.text : Instruction → String
  | .arithmetic operation destination left right =>
    operation.name ++ " " ++ destination ++ ", " ++ left ++ ", " ++ right
  | .arithmeticImmediate operation destination left value =>
    operation.name ++ " " ++ destination ++ ", " ++ left ++ ", #" ++ Text.decimal value
  | .move destination source => "mov " ++ destination ++ ", " ++ source
  | .moveLow destination half => "movw " ++ destination ++ ", #" ++ Text.decimal half
  | .moveHigh destination half => "movt " ++ destination ++ ", #" ++ Text.decimal half
  | .addressOf destination target => "adr " ++ destination ++ ", " ++ target.text
  | .load destination address => "ldr " ++ destination ++ ", " ++ address.text
  | .store source address => "str " ++ source ++ ", " ++ address.text
  | .push source => "push \x7b" ++ source ++ "\x7d"
  | .pop destination => "pop \x7b" ++ destination ++ "\x7d"
  | .branch target => "b " ++ target.text
  | .branchRegister register => "bx " ++ register
  | .call target => "blx " ++ target.text
  | .callRegister register => "blx " ++ register
  | .ret => "bx lr"
  | .compare left right => "cmp " ++ left ++ ", " ++ right
  | .compareImmediate left value => "cmp " ++ left ++ ", #" ++ Text.decimal value
  | .branchIf condition target => "b" ++ condition.suffix ++ " " ++ target.text
  | .trap => "bkpt #0"
  | .nop => "nop"

/-- The register in which immediates are built. -/
def scratch : String := "r4"

def immediateText (value : Int) : String := "#" ++ Text.decimal value

def materialize (value : Int) (destination : String) : List Instruction :=
  let word := Bits.word 32 value
  let high := Bits.field 16 16 word
  .moveLow destination (Bits.field 0 16 word) ::
    if high = 0 then [] else [.moveHigh destination high]

def addressOf (config : Configuration) (memory : Memory) : Checked Address :=
  match memory with
  | .direct _ base offset => do
    let baseText ← base.registerText config
    let value ← offset.immediateValue config
    return .offset baseText value
  | .indexed origin base index scale offset => do
    let value ← offset.immediateValue config
    if value ≠ 0 then memory.reject .indexedWithOffset
    else
      let baseText ← base.registerText config
      let indexText ← index.registerText config
      let found ← Node.scaleOf origin scale
      return .index baseText indexText found.shift
  | .absolute .. => memory.reject (.absoluteUnsupported config.architecture.name)

variable (config : Configuration) (statement : Statement)

def memoryOperand (node : Node) : Checked Address := do
  let memory ← statement.memory node
  addressOf config memory

/-! ### Statements -/

def arithmetic (operation : Arithmetic) (source left destination : Node) :
    Checked (List Instruction) := do
  let leftText ← statement.register config left
  let destinationText ← statement.register config destination
  if source.isLiteral then
    let value ← source.immediateValue config
    if Bits.fitsUnsigned 12 value then
      return [.arithmeticImmediate operation destinationText leftText value]
    else
      return materialize value scratch ++
        [.arithmetic operation destinationText leftText scratch]
  else
    let sourceText ← statement.register config source
    return [.arithmetic operation destinationText leftText sourceText]

def loaded (source : Node) : Checked (String → List Instruction) := do
  let address ← memoryOperand config statement source
  return fun destination => [.load destination address]

def storeStatement : Checked (List Instruction) :=
  match statement.operands with
  | [source, destination] => do
    let address ← memoryOperand config statement destination
    if source.isLiteral then
      let value ← source.immediateValue config
      return materialize value scratch ++ [.store scratch address]
    else
      let sourceText ← statement.register config source
      return [.store sourceText address]
  | _ => statement.rejectCount [2]

def comparison (left right : Node) : Checked (List Instruction) := do
  let leftText ← statement.register config left
  if right.isLiteral then
    let value ← right.immediateValue config
    if Bits.fitsUnsigned 8 value then return [.compareImmediate leftText value]
    else return materialize value scratch ++ [.compare leftText scratch]
  else
    let rightText ← statement.register config right
    return [.compare leftText rightText]

def compared (condition : Condition) (left right : Node) :
    Checked (Target → List Instruction) := do
  let lines ← comparison config statement left right
  return fun target => lines ++ [.branchIf condition target]

def lower? (opcode : Opcode) : Option (Emit (List Instruction)) :=
  match opcode with
  | .addp => some (statement.combination (arithmetic config statement .add))
  | .subp => some (statement.combination (arithmetic config statement .sub))
  | .move =>
    some (statement.move config (fun target destination => .addressOf destination target)
      materialize (fun source destination => .move destination source))
  | .push => some (statement.registers config (List.map .push))
  | .pop => some (statement.registers config (List.map .pop))
  | .loadp => some (statement.load config (loaded config statement))
  | .storep => some (storeStatement config statement)
  | .jmp => some (statement.transfer config .branch .branchRegister)
  | .call => some (statement.transfer config .call .callRegister)
  | .ret => some (statement.bare .ret)
  | .bpeq => some (statement.branch (compared config statement .equal))
  | .bpneq => some (statement.branch (compared config statement .notEqual))
  | .trap => some (statement.bare .trap)
  | .nop => some (statement.bare .nop)
  | .addq | .subq | .loadq | .storeq | .loadpairq | .storepairq => none

end MacroAssembler.Armv7
