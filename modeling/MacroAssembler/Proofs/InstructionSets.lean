/-
This module brings the machines under one view. Every machine lowers a statement by the form of its
opcode, so a machine is given by what it has for each form.
-/
import MacroAssembler.Emission.Assembly

namespace MacroAssembler

/-- The instructions that a machine has for operands that were read. -/
structure Vocabulary (ι : Type) where
  moveTarget : Target → String → ι
  moveValue : Int → String → List ι
  moveRegister : String → String → ι
  push : List String → List ι
  pop : List String → List ι
  jump : Target → ι
  jumpRegister : String → ι
  call : Target → ι
  callRegister : String → ι
  ret : ι
  trap : ι
  nop : ι

/-- What a machine has for the forms of a statement. -/
structure InstructionSet (ι : Type) where
  vocabulary : Vocabulary ι
  arithmetic : Arithmetic → Node → Node → Node → Checked (List ι)
  loaded : Node → Checked (String → List ι)
  stored : Checked (List ι)
  compared : Condition → Node → Node → Checked (Target → List ι)
  /-- Loading and storing two words, if there are eight-byte forms. -/
  pairs? : Option (Checked (List ι) × Checked (List ι))

def InstructionSet.lower? {ι : Type} (machine : InstructionSet ι) (config : Configuration)
    (stmt : Statement) : Opcode → Option (Emit (List ι))
  | .addp => some (stmt.combination (machine.arithmetic .add))
  | .subp => some (stmt.combination (machine.arithmetic .sub))
  | .addq => machine.pairs?.map fun _ => stmt.combination (machine.arithmetic .add)
  | .subq => machine.pairs?.map fun _ => stmt.combination (machine.arithmetic .sub)
  | .move => some (stmt.move config machine.vocabulary.moveTarget
      machine.vocabulary.moveValue machine.vocabulary.moveRegister)
  | .push => some (stmt.registers config machine.vocabulary.push)
  | .pop => some (stmt.registers config machine.vocabulary.pop)
  | .loadp => some (stmt.load config machine.loaded)
  | .loadq => machine.pairs?.map fun _ => stmt.load config machine.loaded
  | .storep => some machine.stored
  | .storeq => machine.pairs?.map fun _ => machine.stored
  | .loadpairq => machine.pairs?.map fun pair => pair.1
  | .storepairq => machine.pairs?.map fun pair => pair.2
  | .jmp => some (stmt.transfer config machine.vocabulary.jump
      machine.vocabulary.jumpRegister)
  | .call => some (stmt.transfer config machine.vocabulary.call
      machine.vocabulary.callRegister)
  | .ret => some (stmt.bare machine.vocabulary.ret)
  | .bpeq => some (stmt.branch (machine.compared .equal))
  | .bpneq => some (stmt.branch (machine.compared .notEqual))
  | .trap => some (stmt.bare machine.vocabulary.trap)
  | .nop => some (stmt.bare machine.vocabulary.nop)

variable (config : Configuration) (stmt : Statement)

def Arm64.machine : InstructionSet Arm64.Instruction where
  vocabulary := ⟨fun target dest => .addressOf dest target, materialize,
    fun source dest => .move dest source, pushed, popped, .branch, .branchRegister,
    .call, .callRegister, .ret, .trap, .nop⟩
  arithmetic := arithmetic config stmt
  loaded := loaded config stmt
  stored := storeStatement config stmt
  compared := compared config stmt
  pairs? := some (loadPairStatement config stmt, storePairStatement config stmt)

def X86.machine : InstructionSet X86.Instruction where
  vocabulary := ⟨.addressOf, immediateMove,
    fun source dest => .move (.register source) dest, List.map .push, List.map .pop,
    .jump, .jumpRegister, .call, .callRegister, .ret, .trap, .nop⟩
  arithmetic := arithmetic config stmt
  loaded := loaded config stmt
  stored := storeStatement config stmt
  compared := compared config stmt
  pairs? := some (loadPairStatement config stmt, storePairStatement config stmt)

def Riscv.machine : InstructionSet Riscv.Instruction where
  vocabulary := ⟨fun target dest => .loadAddress dest target,
    fun value dest => [.loadImmediate dest value],
    fun source dest => .move dest source, pushed, popped, .jump, .jumpRegister,
    .call, .callRegister, .ret, .trap, .nop⟩
  arithmetic := arithmetic config stmt
  loaded := loaded config stmt
  stored := storeStatement config stmt
  compared := compared config stmt
  pairs? := some (loadPairStatement config stmt, storePairStatement config stmt)

def Armv7.machine : InstructionSet Armv7.Instruction where
  vocabulary := ⟨fun target dest => .addressOf dest target, materialize,
    fun source dest => .move dest source, List.map .push, List.map .pop, .branch,
    .branchRegister, .call, .callRegister, .ret, .trap, .nop⟩
  arithmetic := arithmetic config stmt
  loaded := loaded config stmt
  stored := storeStatement config stmt
  compared := compared config stmt
  pairs? := none

namespace Assembly

def wrapped {ι : Type} (wrap : ι → MachineInstruction) (step : Emit (List ι)) :
    Emit (List MachineInstruction) := do
  let lowered ← step
  return lowered.map wrap

variable {config}

theorem machine_cases {opcode : Opcode}
    (property : (Statement → Option (Emit (List MachineInstruction))) → Prop)
    (x86 : property fun stmt => ((X86.machine config stmt).lower? config stmt opcode).map
        (wrapped .x86)) (riscv : property fun stmt =>
      ((Riscv.machine config stmt).lower? config stmt opcode).map (wrapped .riscv))
    (armv7 : property fun stmt => ((Armv7.machine config stmt).lower? config stmt opcode).map
        (wrapped .armv7)) (arm64 : property fun stmt =>
      ((Arm64.machine config stmt).lower? config stmt opcode).map (wrapped .arm64)) :
    property fun stmt => instructions? config stmt opcode := by
  unfold instructions?
  cases config.architecture with
  | x86 => cases opcode <;> exact x86
  | riscv => cases opcode <;> exact riscv
  | armv7 => cases opcode <;> exact armv7
  | arm64 | arm64e | loop => cases opcode <;> exact arm64

end Assembly

end MacroAssembler
