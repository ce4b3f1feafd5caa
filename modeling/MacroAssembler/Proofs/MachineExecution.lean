/-
This module says what the instructions of the machines do.

Every instruction has effects: it puts a word into a register, loads or stores one, or compares two.
The words are expressions over the registers at that time. A machine names its registers by texts,
and several texts may name one register. An effect takes place if its operands are registers that
the machine takes there; otherwise it has no meaning.

Instructions that go elsewhere have no meaning, nor have those that need the address of a label: the
lines of interest run from the first one to the last one.
-/
import MacroAssembler.Emission.Assembly
import MacroAssembler.Proofs.MachineState
import MacroAssembler.Proofs.Step

namespace MacroAssembler

variable {bits : Nat}

/-! ### Registers -/

structure RegisterFile where
  registers : List (String × MachineRegister)
  zeros : List String
  /-- Whether loads and stores take floating-point registers too. -/
  movesFloats : Bool
  /-- The names of the registers that emission uses for itself. -/
  scratchNames : List String

namespace RegisterFile

def numbered (letter : String) (count : Nat) (register : Nat → MachineRegister) :
    List (String × MachineRegister) :=
  (List.range count).map fun number => (RegisterTable.numbered letter number, register number)

def register? (file : RegisterFile) (name : String) : Option MachineRegister :=
  Association.get? file.registers name

def taken? (file : RegisterFile) (isTaken : MachineRegister → Bool) (name : String) :
    Option MachineRegister :=
  (file.register? name).filter isTaken

abbrev integer? (file : RegisterFile) : String → Option MachineRegister :=
  file.taken? MachineRegister.isInteger

/-- Whether loads and stores take a register. -/
def moves (file : RegisterFile) (register : MachineRegister) : Bool :=
  register.isInteger || file.movesFloats

def scratch (file : RegisterFile) : List MachineRegister :=
  file.scratchNames.filterMap file.register?

end RegisterFile

/-! ### Effects -/

def Arithmetic.compute : Arithmetic → BitVec bits → BitVec bits → BitVec bits
  | .add, left, right => left + right
  | .sub, left, right => left - right

def insertHalf (word : BitVec bits) (half position : Nat) : BitVec bits :=
  word &&& ~~~(BitVec.ofNat bits 0xFFFF <<< position) ||| BitVec.ofNat bits half <<< position

/-- A word that an instruction computes. -/
inductive Expression
  | constant (value : Int)
  | register (name : String)
  | result (operation : Arithmetic) (left right : Expression)
  | shifted (inner : Expression) (amount : Nat)
  | replaced (inner : Expression) (half position : Nat)
  | unknown

def Expression.value? (file : RegisterFile) (isTaken : MachineRegister → Bool)
    (state : MachineState bits) : Expression → Option (BitVec bits)
  | .constant value => some (BitVec.ofInt bits value)
  | .register name =>
    ((file.taken? isTaken name).map state.registers).or (if name ∈ file.zeros then some 0 else none)
  | .result operation left right => do
    let first ← left.value? file isTaken state
    let second ← right.value? file isTaken state
    return operation.compute first second
  | .shifted inner amount => (inner.value? file isTaken state).map (BitVec.shiftLeft · amount)
  | .replaced inner half position =>
    (inner.value? file isTaken state).map (insertHalf · half position)
  | .unknown => none

/-- An expression that is larger by a constant. -/
def Expression.plus (inner : Expression) (distance : Int) : Expression :=
  .result .add inner (.constant distance)

abbrev Expression.integerValue? (file : RegisterFile) (state : MachineState bits) :
    Expression → Option (BitVec bits) :=
  value? file MachineRegister.isInteger state

/-- What an instruction does. -/
inductive Effect
  | assign (target : String) (value : Expression)
  | load (target : String) (address : Expression)
  | loadPair (first second : String) (address : Expression) (distance : Int)
  | store (value address : Expression)
  | compare (left right : Expression)
  | unknown

def Effect.step (file : RegisterFile) (state : MachineState bits) :
    Effect → Option (MachineState bits)
  | .assign target value => do
    let register ← file.integer? target
    let word ← value.integerValue? file state
    return state.set register word
  | .load target address => do
    let register ← file.taken? file.moves target
    let place ← address.integerValue? file state
    return state.load register place
  | .loadPair first second address distance => do
    let firstRegister ← file.taken? file.moves first
    let secondRegister ← file.taken? file.moves second
    let place ← address.integerValue? file state
    return (state.load firstRegister place).load secondRegister (place + BitVec.ofInt bits distance)
  | .store value address => do
    let word ← value.value? file file.moves state
    let place ← address.integerValue? file state
    return state.store place word
  | .compare left right => do
    let first ← left.integerValue? file state
    let second ← right.integerValue? file state
    return { state with isEqual := first == second }
  | .unknown => none

def run (file : RegisterFile) (effects : List Effect) (state : MachineState bits) :
    Option (MachineState bits) :=
  effects.foldlM (Effect.step file) state

def Effect.push (stackPointer : String) (bytes : Int) (source : String) : List Effect :=
  [.store (.register source) (.plus (.register stackPointer) (-bytes)),
    .assign stackPointer (.plus (.register stackPointer) (-bytes))]

def Effect.pop (stackPointer : String) (bytes : Int) (target : String) : List Effect :=
  [.assign stackPointer (.plus (.register stackPointer) bytes),
    .load target (.plus (.register stackPointer) (-bytes))]

/-! ### 64-bit ARM -/

namespace Arm64

/-- The registers, of which `lr` is the last numbered one. -/
def registerFile : RegisterFile where
  registers := RegisterFile.numbered "x" 31 .integer ++ [("lr", .integer 30), ("sp", .integer 31)] ++
    RegisterFile.numbered "d" 32 .float
  zeros := ["xzr"]
  movesFloats := true
  scratchNames := [scratch, addressScratch]

def Address.expression : Address → Expression
  | .offset base distance => .plus (.register base) distance
  | .index base step => .result .add (.register base) (.register step)
  | .wordIndex base step => .result .add (.register base) (.shifted (.register step) 3)

def Instruction.effects : Instruction → List Effect
  | .arithmetic operation dest left right =>
    [.assign dest (.result operation (.register left) (.register right))]
  | .arithmeticImmediate operation dest left value =>
    [.assign dest (.result operation (.register left) (.constant value))]
  | .addShifted dest left right shift =>
    [.assign dest (.result .add (.register left) (.shifted (.register right) shift))]
  | .move dest source => [.assign dest (.register source)]
  | .moveImmediate dest value => [.assign dest (.constant value)]
  | .moveZero dest chunk => [.assign dest (.constant chunk)]
  | .moveKeep dest chunk shift =>
    [.assign dest (.replaced (.register dest) chunk shift)]
  | .load dest address => [.load dest address.expression]
  | .store source address => [.store (.register source) address.expression]
  | .loadPair first second address => [.loadPair first second address.expression 8]
  | .storePair first second address =>
    [.store (.register first) address.expression,
      .store (.register second) (address.expression.plus 8)]
  | .push source => Effect.push "sp" 16 source
  | .pushPair first second =>
    .store (.register second) (.plus (.register "sp") (-8)) :: Effect.push "sp" 16 first
  | .pop dest => Effect.pop "sp" 16 dest
  | .popPair first second =>
    [.assign "sp" (.plus (.register "sp") 16),
      .loadPair first second (.plus (.register "sp") (-16)) 8]
  | .compare left right => [.compare (.register left) (.register right)]
  | .compareImmediate left value => [.compare (.register left) (.constant value)]
  | .nop => []
  | .addressOf .. | .branch _ | .branchRegister _ | .call _ | .callRegister _ | .ret
  | .branchIf .. | .trap => [.unknown]

end Arm64

/-! ### 64-bit x86 -/

namespace X86

/-- The registers. The first eight have names instead of numbers. -/
def registerFile : RegisterFile where
  registers := [("%rax", .integer 0), ("%rcx", .integer 1), ("%rdx", .integer 2),
    ("%rbx", .integer 3), ("%rsp", .integer 4), ("%rbp", .integer 5), ("%rsi", .integer 6),
    ("%rdi", .integer 7), ("%r8", .integer 8), ("%r9", .integer 9), ("%r10", .integer 10),
    ("%r11", .integer 11), ("%r12", .integer 12), ("%r13", .integer 13), ("%r14", .integer 14),
    ("%r15", .integer 15)] ++ RegisterFile.numbered "%xmm" 16 .float
  zeros := []
  movesFloats := true
  scratchNames := [scratch]

/-- The shift that a scale stands for where it is written: it has to be written as a number. -/
def shift? (scale : Scale) : Option Nat :=
  [0, 1, 2, 3].find? fun shift => decide (Text.decimal (2 ^ shift : Nat) = scale.text)

def Operand.expression : Operand → Expression
  | .immediate value => .constant value
  | .register name => .register name

def Address.expression : Address → Expression
  | .direct offset base => .plus (.register base) offset
  | .indexed offset base index scale =>
    match shift? scale with
    | none => .unknown
    | some shift => .plus (.result .add (.register base) (.shifted (.register index) shift)) offset
  | .absolute place => .constant place

/-- The effects of an operation, whose result is also compared with zero. -/
def resultEffects (dest : String) (value : Expression) : List Effect :=
  [.assign dest value, .compare (.register dest) (.constant 0)]

def Instruction.effects : Instruction → List Effect
  | .arithmetic operation source dest =>
    resultEffects dest (.result operation (.register dest) source.expression)
  | .negate dest =>
    resultEffects dest (.result .sub (.constant 0) (.register dest))
  | .move source dest => [.assign dest source.expression]
  | .moveWide value dest => [.assign dest (.constant value)]
  | .load address dest => [.load dest address.expression]
  | .store source address => [.store source.expression address.expression]
  | .push source => Effect.push "%rsp" 8 source
  | .pop dest => Effect.pop "%rsp" 8 dest
  | .compare right left => [.compare (.register left) right.expression]
  | .nop => []
  | .addressOf .. | .jump _ | .jumpRegister _ | .call _ | .callRegister _ | .ret | .jumpIf ..
  | .trap => [.unknown]

end X86

/-! ### 64-bit RISC-V -/

namespace Riscv

/-- The registers, of which two have names beside their numbers. -/
def registerFile : RegisterFile where
  registers := (RegisterFile.numbered "x" 32 .integer).tail ++
    [("ra", .integer 1), ("sp", .integer 2)] ++ RegisterFile.numbered "f" 32 .float
  zeros := ["zero", "x0"]
  movesFloats := false
  scratchNames := [scratch, valueScratch]

def Address.expression (address : Address) : Expression :=
  .plus (.register address.base) address.offset

def Instruction.effects : Instruction → List Effect
  | .arithmetic operation dest left right =>
    [.assign dest (.result operation (.register left) (.register right))]
  | .addImmediate dest left value => [.assign dest (.plus (.register left) value)]
  | .shiftLeft dest source amount =>
    [.assign dest (.shifted (.register source) amount)]
  | .loadImmediate dest value => [.assign dest (.constant value)]
  | .move dest source => [.assign dest (.register source)]
  | .load dest address => [.load dest address.expression]
  | .store source address => [.store (.register source) address.expression]
  | .nop => []
  | .loadAddress .. | .jump _ | .jumpRegister _ | .call _ | .callRegister _ | .ret | .branchIf ..
  | .trap => [.unknown]

end Riscv

/-! ### 32-bit ARM -/

namespace Armv7

/-- The registers, of which the last two have names. -/
def registerFile : RegisterFile where
  registers := RegisterFile.numbered "r" 13 .integer ++ [("sp", .integer 13), ("lr", .integer 14)] ++
    RegisterFile.numbered "d" 32 .float
  zeros := []
  movesFloats := false
  scratchNames := [scratch]

def Address.expression : Address → Expression
  | .offset base distance => .plus (.register base) distance
  | .index base step shift => .result .add (.register base) (.shifted (.register step) shift)

def Instruction.effects : Instruction → List Effect
  | .arithmetic operation dest left right =>
    [.assign dest (.result operation (.register left) (.register right))]
  | .arithmeticImmediate operation dest left value =>
    [.assign dest (.result operation (.register left) (.constant value))]
  | .move dest source => [.assign dest (.register source)]
  | .moveLow dest half => [.assign dest (.constant half)]
  | .moveHigh dest half =>
    [.assign dest (.replaced (.register dest) half 16)]
  | .load dest address => [.load dest address.expression]
  | .store source address => [.store (.register source) address.expression]
  | .push source => Effect.push "sp" 4 source
  | .pop dest => Effect.pop "sp" 4 dest
  | .compare left right => [.compare (.register left) (.register right)]
  | .compareImmediate left value => [.compare (.register left) (.constant value)]
  | .nop => []
  | .addressOf .. | .branch _ | .branchRegister _ | .call _ | .callRegister _ | .ret
  | .branchIf .. | .trap => [.unknown]

end Armv7

/-! ### Lines -/

def MachineInstruction.effects : MachineInstruction → List Effect
  | .arm64 instruction => instruction.effects
  | .x86 instruction => instruction.effects
  | .riscv instruction => instruction.effects
  | .armv7 instruction => instruction.effects

/-- The effects of a line. A label does nothing; text that is passed on has no meaning here. -/
def Line.effects : Line → List Effect
  | .label .. | .localLabel _ => []
  | .code instruction _ => instruction.effects
  | .verbatim _ | .operand _ => [.unknown]

def execute (file : RegisterFile) (lines : List Line) (state : MachineState bits) :
    Option (MachineState bits) :=
  run file (lines.flatMap Line.effects) state

namespace Architecture

def registerFile : Architecture → RegisterFile
  | .arm64 | .arm64e => Arm64.registerFile
  | .x86 => X86.registerFile
  | .riscv => Riscv.registerFile
  | .armv7 => Armv7.registerFile
  | .loop => ⟨[], [], false, []⟩

def wordBits : Architecture → Nat
  | .armv7 => 32
  | _ => 64

end Architecture

/-! ### What effects do -/

section Effects

variable {file : RegisterFile} {isTaken : MachineRegister → Bool} {name : String}
  {register : MachineRegister} {value address : Expression} {word place : BitVec bits}
  {state middle : MachineState bits}

theorem Expression.value?_register (named : file.taken? isTaken name = some register)
    (state : MachineState bits) :
    (Expression.register name).value? file isTaken state = some (state.registers register) := by
  rw [value?, named, Option.map_some, Option.some_or]

theorem Expression.value?_result {operation : Arithmetic} {left right : Expression}
    {first second : BitVec bits} (leftIs : left.value? file isTaken state = some first)
    (rightIs : right.value? file isTaken state = some second) :
    (Expression.result operation left right).value? file isTaken state =
      some (operation.compute first second) := by
  rw [value?, leftIs, rightIs]
  rfl

theorem Expression.value?_shifted {inner : Expression}
    (innerIs : inner.value? file isTaken state = some word) (amount : Nat) :
    (Expression.shifted inner amount).value? file isTaken state = some (word <<< amount) := by
  rw [value?, innerIs]
  rfl

theorem Effect.step_assign (named : file.integer? name = some register)
    (valueIs : value.integerValue? file state = some word) :
    (Effect.assign name value).step file state = some (state.set register word) := by
  rw [step, named, valueIs]
  rfl

theorem Effect.step_load (named : file.taken? file.moves name = some register)
    (addressIs : address.integerValue? file state = some place) :
    (Effect.load name address).step file state = some (state.load register place) := by
  rw [step, named, addressIs]
  rfl

theorem Effect.step_store (valueIs : value.value? file file.moves state = some word)
    (addressIs : address.integerValue? file state = some place) :
    (Effect.store value address).step file state = some (state.store place word) := by
  rw [step, valueIs, addressIs]
  rfl

@[simp]
theorem run_nil (state : MachineState bits) : run file [] state = some state := rfl

@[simp]
theorem run_cons (effect : Effect) (rest : List Effect) (state : MachineState bits) :
    run file (effect :: rest) state = (effect.step file state).bind (run file rest) := rfl

theorem run_append {effects : List Effect} (rest : List Effect)
    (first : run file effects state = some middle) :
    run file (effects ++ rest) state = run file rest middle := by
  unfold run at first ⊢
  rw [List.foldlM_append, first]
  rfl

end Effects

theorem Line.flatMap_effects_ofInstructions (comment : Value)
    (instructions : List MachineInstruction) :
    (Line.ofInstructions comment instructions).flatMap Line.effects =
      instructions.flatMap MachineInstruction.effects := by
  cases instructions with
  | nil => rfl
  | cons first rest => simp [Line.ofInstructions, Line.effects, List.flatMap_map]

/-! ### Lowered statements -/

namespace Assembly

variable {config : Configuration} {stmt : Statement} {opcode : Opcode} {ι : Type}
  {wrap : ι → MachineInstruction} {lowered : Checked (List ι)}

/-- Whether the instructions of a statement are the given ones, or its lowering fails as they do. -/
def LowersTo (config : Configuration) (stmt : Statement) (opcode : Opcode)
    (wrap : ι → MachineInstruction) (lowered : Checked (List ι)) : Prop :=
  stmt.opcode = opcode.name ∧ ∃ step, instructions? config stmt opcode = some step ∧
    ∀ table, step.perform table = (lowered.map (List.map wrap), table)

theorem perform_map_lift (lowered : Checked (List ι)) (table : SymbolTable) :
    (do let lines ← (liftM lowered : Emit (List ι)); return lines.map wrap : Emit _).perform table =
      (lowered.map (List.map wrap), table) := by
  cases lowered <;> rfl

theorem lowersTo (named : stmt.opcode = opcode.name)
    (same : instructions? config stmt opcode = some (do
      let lines ← (liftM lowered : Emit (List ι))
      return lines.map wrap)) :
    LowersTo config stmt opcode wrap lowered :=
  ⟨named, _, same, perform_map_lift lowered⟩

theorem dispatch_name (opcode : Opcode) :
    silentOpcodes.contains opcode.name = false ∧ opcode.name ≠ "emit" ∧
      Opcode.ofName? opcode.name = some opcode := by
  cases opcode <;> decide +kernel

theorem perform_lower {step : Emit (List MachineInstruction)} (named : stmt.opcode = opcode.name)
    (handled : instructions? config stmt opcode = some step) (table : SymbolTable) :
    (lower config stmt.toNode).perform table = ((step.perform table).1.map fun instructions =>
        .statements (Line.ofInstructions stmt.comment instructions), (step.perform table).2) := by
  obtain ⟨silent, other, known⟩ := dispatch_name opcode
  rw [← named] at silent other known
  simp only [Statement.toNode, lower, lowerStatement, silent, other, known, Bool.false_eq_true,
    if_false, Option.bind_some, handled, Action.perform_bind]
  rcases step.perform table with ⟨_ | _, _⟩ <;> rfl

theorem LowersTo.perform_lower (lowers : LowersTo config stmt opcode wrap lowered)
    (table : SymbolTable) : (lower config stmt.toNode).perform table = (lowered.map fun lines =>
        .statements (Line.ofInstructions stmt.comment (lines.map wrap)), table) := by
  obtain ⟨named, step, handled, performs⟩ := lowers
  rw [Assembly.perform_lower named handled, performs]
  cases lowered <;> rfl

end Assembly

end MacroAssembler
