/-
This module lowers statements to 64-bit ARM code. An immediate that an instruction cannot hold is
built in a scratch register, and an address that is no addressing mode is formed in a second one.
-/
import MacroAssembler.Emission.Form

namespace MacroAssembler.Arm64

inductive Address
  | offset (base : String) (offset : Int)
  | index (base index : String)
  | wordIndex (base index : String)
deriving DecidableEq, Repr

inductive Instruction
  | arithmetic (operation : Arithmetic) (destination left right : String)
  | arithmeticImmediate (operation : Arithmetic) (destination left : String) (value : Int)
  | addShifted (destination left right : String) (shift : Nat)
  | move (destination source : String)
  | moveImmediate (destination : String) (value : Int)
  | moveZero (destination : String) (chunk : Nat)
  | moveKeep (destination : String) (chunk shift : Nat)
  | addressOf (destination : String) (target : Target)
  | load (destination : String) (address : Address)
  | store (source : String) (address : Address)
  | loadPair (first second : String) (address : Address)
  | storePair (first second : String) (address : Address)
  | push (source : String)
  | pushPair (first second : String)
  | pop (destination : String)
  | popPair (first second : String)
  | branch (target : Target)
  | branchRegister (register : String)
  | call (target : Target)
  | callRegister (register : String)
  | ret
  | compare (left right : String)
  | compareImmediate (left : String) (value : Int)
  | branchIf (condition : Condition) (target : Target)
  | trap
  | nop
deriving DecidableEq, Repr

def Address.text : Address → String
  | .offset base distance => "[" ++ base ++ ", #" ++ Text.decimal distance ++ "]"
  | .index base step => "[" ++ base ++ ", " ++ step ++ "]"
  | .wordIndex base step => "[" ++ base ++ ", " ++ step ++ ", lsl #3]"

def Instruction.text : Instruction → String
  | .arithmetic operation destination left right =>
    operation.name ++ " " ++ destination ++ ", " ++ left ++ ", " ++ right
  | .arithmeticImmediate operation destination left value =>
    operation.name ++ " " ++ destination ++ ", " ++ left ++ ", #" ++ Text.decimal value
  | .addShifted destination left right shift =>
    "add " ++ destination ++ ", " ++ left ++ ", " ++ right ++ ", lsl #" ++ Text.decimal shift
  | .move destination source => "mov " ++ destination ++ ", " ++ source
  | .moveImmediate destination value => "mov " ++ destination ++ ", #" ++ Text.decimal value
  | .moveZero destination chunk => "movz " ++ destination ++ ", #" ++ Text.decimal chunk
  | .moveKeep destination chunk shift =>
    "movk " ++ destination ++ ", #" ++ Text.decimal chunk ++ ", lsl #" ++ Text.decimal shift
  | .addressOf destination target => "adr " ++ destination ++ ", " ++ target.text
  | .load destination address => "ldr " ++ destination ++ ", " ++ address.text
  | .store source address => "str " ++ source ++ ", " ++ address.text
  | .loadPair first second address =>
    "ldp " ++ first ++ ", " ++ second ++ ", " ++ address.text
  | .storePair first second address =>
    "stp " ++ first ++ ", " ++ second ++ ", " ++ address.text
  | .push source => "str " ++ source ++ ", [sp, #-16]!"
  | .pushPair first second => "stp " ++ first ++ ", " ++ second ++ ", [sp, #-16]!"
  | .pop destination => "ldr " ++ destination ++ ", [sp], #16"
  | .popPair first second => "ldp " ++ first ++ ", " ++ second ++ ", [sp], #16"
  | .branch target => "b " ++ target.text
  | .branchRegister register => "br " ++ register
  | .call target => "bl " ++ target.text
  | .callRegister register => "blr " ++ register
  | .ret => "ret"
  | .compare left right => "cmp " ++ left ++ ", " ++ right
  | .compareImmediate left value => "cmp " ++ left ++ ", #" ++ Text.decimal value
  | .branchIf condition target => "b." ++ condition.suffix ++ " " ++ target.text
  | .trap => "brk #0xc471"
  | .nop => "nop"

/-- The register in which immediates are built. -/
def scratch : String := "x17"

/-- The register in which addresses are formed. -/
def addressScratch : String := "x16"

def immediateText (value : Int) : String := "#" ++ Text.decimal value

/-! ### Constants -/

/-- Put the nonzero sixteen bits of a word at a position into a register. -/
def keepChunk (word : Nat) (destination : String) (shift : Nat) : List Instruction :=
  let chunk := Bits.field shift 16 word
  if chunk = 0 then [] else [.moveKeep destination chunk shift]

def materialize (value : Int) (destination : String) : List Instruction :=
  if -(Nat.pow 2 16 : Nat) < value ∧ value < (Nat.pow 2 16 : Nat) then
    [.moveImmediate destination value]
  else
    let word := Bits.word 64 value
    .moveZero destination (Bits.field 0 16 word) ::
      [16, 32, 48].flatMap (keepChunk word destination)

/-! ### Memory -/

/-- The addressing mode of a memory operand that stands by itself. -/
def addressOf (config : Configuration) (memory : Memory) : Checked Address :=
  match memory with
  | .direct _ base offset => do
    let baseText ← base.registerText config
    let value ← offset.immediateValue config
    return .offset baseText value
  | .indexed origin base index scale offset => do
    let value ← offset.immediateValue config
    if value ≠ 0 then memory.reject .indexedWithOffsetOrScale
    else
      let found ← Node.scaleOf origin scale
      if found.factor ≠ 1 ∧ found.factor ≠ 8 then memory.reject .indexedWithOffsetOrScale
      else
        let baseText ← base.registerText config
        let indexText ← index.registerText config
        if found.factor = 1 then return .index baseText indexText
        else return .wordIndex baseText indexText
  | .absolute .. => memory.reject (.absoluteUnsupported config.architecture.name)

/-- The addressing mode of a memory operand, after the instructions that form it. Pairs take no
indexed address. -/
def formAddress (config : Configuration) (isPair : Bool) (memory : Memory) :
    Checked (List Instruction × Address) :=
  match memory with
  | .indexed origin base index scale offset => do
    let value ← offset.immediateValue config
    let isPlain ←
      if isPair || value ≠ 0 then pure false
      else do
        let found ← Node.scaleOf origin scale
        pure (found.factor = 1 || found.factor = 8)
    if isPlain then
      let address ← addressOf config memory
      return ([], address)
    else
      let baseText ← base.registerText config
      let indexText ← index.registerText config
      let found ← Node.scaleOf origin scale
      return ([.addShifted addressScratch baseText indexText found.shift],
        .offset addressScratch value)
  | other => do
    let address ← addressOf config other
    return ([], address)

def memoryOperand (config : Configuration) (statement : Statement) (isPair : Bool)
    (node : Node) : Checked (List Instruction × Address) := do
  let memory ← statement.memory node
  formAddress config isPair memory

/-! ### Statements -/

variable (config : Configuration) (statement : Statement)

def arithmetic (operation : Arithmetic) (source left destination : Node) :
    Checked (List Instruction) := do
  let leftText ← statement.register config left
  let destinationText ← statement.register config destination
  if source.isLiteral then
    let value ← source.immediateValue config
    if Bits.fitsUnsigned 12 value then
      return [.arithmeticImmediate operation destinationText leftText value]
    else if Bits.fitsUnsigned 12 (-value) then
      return [.arithmeticImmediate operation.inverse destinationText leftText (-value)]
    else
      return materialize value scratch ++
        [.arithmetic operation destinationText leftText scratch]
  else
    let sourceText ← statement.register config source
    return [.arithmetic operation destinationText leftText sourceText]

def pushed : List String → List Instruction
  | [first, second] => [.pushPair first second]
  | others => others.map Instruction.push

def popped : List String → List Instruction
  | [first, second] => [.popPair second first]
  | others => others.map Instruction.pop

def loaded (source : Node) : Checked (String → List Instruction) := do
  let (lines, address) ← memoryOperand config statement false source
  return fun destination => lines ++ [.load destination address]

def storeStatement : Checked (List Instruction) :=
  match statement.operands with
  | [source, destination] => do
    let (lines, address) ← memoryOperand config statement false destination
    if source.isLiteral then
      let value ← source.immediateValue config
      if value = 0 then return lines ++ [.store "xzr" address]
      else return materialize value scratch ++ lines ++ [.store scratch address]
    else
      let sourceText ← statement.register config source
      return lines ++ [.store sourceText address]
  | _ => statement.rejectCount [2]

def loadPairStatement : Checked (List Instruction) :=
  match statement.operands with
  | [source, first, second] => do
    let (lines, address) ← memoryOperand config statement true source
    let firstText ← statement.register config first
    let secondText ← statement.register config second
    return lines ++ [.loadPair firstText secondText address]
  | _ => statement.rejectCount [3]

def storePairStatement : Checked (List Instruction) :=
  match statement.operands with
  | [first, second, destination] => do
    let firstText ← statement.register config first
    let secondText ← statement.register config second
    let (lines, address) ← memoryOperand config statement true destination
    return lines ++ [.storePair firstText secondText address]
  | _ => statement.rejectCount [3]

def comparison (left right : Node) : Checked (List Instruction) := do
  let leftText ← statement.register config left
  if right.isLiteral then
    let value ← right.immediateValue config
    if Bits.fitsUnsigned 12 value then return [.compareImmediate leftText value]
    else return materialize value scratch ++ [.compare leftText scratch]
  else
    let rightText ← statement.register config right
    return [.compare leftText rightText]

def compared (condition : Condition) (left right : Node) :
    Checked (Target → List Instruction) := do
  let lines ← comparison config statement left right
  return fun target => lines ++ [.branchIf condition target]

def lower (opcode : Opcode) : Emit (List Instruction) :=
  match opcode with
  | .addp | .addq => statement.combination (arithmetic config statement .add)
  | .subp | .subq => statement.combination (arithmetic config statement .sub)
  | .move =>
    statement.move config (fun target destination => .addressOf destination target)
      materialize (fun source destination => .move destination source)
  | .push => statement.registers config pushed
  | .pop => statement.registers config popped
  | .loadp | .loadq => statement.load config (loaded config statement)
  | .storep | .storeq => storeStatement config statement
  | .loadpairq => loadPairStatement config statement
  | .storepairq => storePairStatement config statement
  | .jmp => statement.transfer config .branch .branchRegister
  | .call => statement.transfer config .call .callRegister
  | .ret => statement.bare .ret
  | .bpeq => statement.branch (compared config statement .equal)
  | .bpneq => statement.branch (compared config statement .notEqual)
  | .trap => statement.bare .trap
  | .nop => statement.bare .nop

end MacroAssembler.Arm64
