/-
This module proves of every statement and every machine that its instructions write only labels
whose uses were noted, and that what it reports is explained by its operands: an unbound variable
only if an operand has a variable.

The forms of statements are treated once, for any machine. Each machine then has to say which labels
its instructions write and that its own way of forming addresses, constants and comparisons writes
none.
-/
import MacroAssembler.Proofs.InstructionSets
import MacroAssembler.Proofs.Lowering

namespace MacroAssembler

open List

/-! ### Forms -/

section Forms

variable {ι : Type} {config : Configuration} {stmt : Statement} {known : List Target}
  {written : ι → List Target} {ensured : List ι → Prop}

theorem lowers_bare {instruction : ι} (holds : ensured [instruction]) :
    Lowers config stmt.operands ensured (stmt.bare instruction) := by
  unfold Statement.bare
  split
  · exact .pure holds
  · exact lowers_rejectCount _

theorem lowers_combination {build : Node → Node → Node → Checked (List ι)}
    (builds : ∀ source left dest, source ∈ stmt.operands → left ∈ stmt.operands →
      dest ∈ stmt.operands → Lowers config stmt.operands ensured (build source left dest)) :
    Lowers config stmt.operands ensured (stmt.combination build) := by
  unfold Statement.combination
  split
  · rename_i operands
    exact builds _ _ _ (by simp [operands]) (by simp [operands]) (by simp [operands])
  · rename_i operands
    exact builds _ _ _ (by simp [operands]) (by simp [operands]) (by simp [operands])
  · exact lowers_rejectCount _

theorem length_spelled {operands : List Node} {names : List String}
    (spelled : operands.mapM (stmt.register config) = .ok names) :
    names.length = operands.length := by
  induction operands generalizing names with
  | nil =>
    cases spelled
    rfl
  | cons operand rest ih =>
    simp only [mapM_cons, Checked.bind_ok] at spelled
    obtain ⟨first, -, others, read, spelled⟩ := spelled
    cases spelled
    rw [length_cons, length_cons, ih read]

theorem lowers_registersForm {build : List String → List ι}
    (builds : ∀ names : List String, names.length ≤ 2 → ensured (build names)) :
    Lowers config stmt.operands ensured (stmt.registers config build) := by
  unfold Statement.registers
  split
  · refine (lowers_registers config).bind fun names spelled _ => .pure (builds names ?_)
    rw [length_spelled spelled]
    omega
  · exact lowers_rejectCount _

theorem emits_move {ofTarget : Target → String → ι} {ofValue : Int → String → List ι}
    {ofRegister : String → String → ι}
    (targets : ∀ target dest, written (ofTarget target dest) = [target])
    (values : ∀ value dest, Silent (List.flatMap written) (ofValue value dest))
    (registers : ∀ source dest, Silent written (ofRegister source dest)) :
    Emits config stmt.operands known (List.flatMap written)
      (stmt.move config ofTarget ofValue ofRegister) := by
  unfold Statement.move
  split
  · rename_i source dest operands
    refine .check (lowers_register config (by simp [operands])) fun _ _ _ => ?_
    refine (emits_target? (by simp [operands])).bind fun target => ?_
    cases target with
    | some target => exact .pure (by simp [targets, Option.toList])
    | none =>
      dsimp only
      split
      · refine .check (lowers_immediate config (by simp [operands])) fun value _ _ => ?_
        exact .pure (by rw [values]; exact nil_subset _)
      · refine .check (lowers_register config (by simp [operands])) fun text _ _ => ?_
        exact .pure (by rw [flatMap_singleton, registers]; exact nil_subset _)
  · exact .lift (lowers_rejectCount _)

theorem lowers_load {read : Node → Checked (String → List ι)}
    (reads : ∀ source ∈ stmt.operands, Lowers config stmt.operands
      (fun build => ∀ dest, ensured (build dest)) (read source)) :
    Lowers config stmt.operands ensured (stmt.load config read) := by
  unfold Statement.load
  split
  · rename_i source dest operands
    refine (reads source (by simp [operands])).bind fun build _ holds => ?_
    refine (lowers_register config (by simp [operands])).bind fun _ _ _ => ?_
    exact .pure (holds _)
  · exact lowers_rejectCount _

theorem emits_transfer {toLabel : Target → ι} {toRegister : String → ι}
    (targets : ∀ target, written (toLabel target) = [target])
    (registers : ∀ name, Silent written (toRegister name)) :
    Emits config stmt.operands known (List.flatMap written)
      (stmt.transfer config toLabel toRegister) := by
  unfold Statement.transfer
  split
  · rename_i place operands
    split
    · refine .check ((lowers_registerText config place).of_mem (by simp [operands]))
        fun text _ _ => ?_
      exact .pure (by rw [flatMap_singleton, registers]; exact nil_subset _)
    · refine (emits_target (by simp [operands])).bind fun _ => ?_
      exact .pure (by simp [targets])
  · exact .lift (lowers_rejectCount _)

theorem comparisonOrder_cases (left right : Node) :
    comparisonOrder left right = (right, left) ∨ comparisonOrder left right = (left, right) := by
  unfold comparisonOrder
  split
  · exact .inl rfl
  · exact .inr rfl

theorem emits_branch {compare : Node → Node → Checked (Target → List ι)}
    (compares : ∀ left right, left ∈ stmt.operands → right ∈ stmt.operands →
      Lowers config stmt.operands (fun build => ∀ target, (build target).flatMap written = [target])
        (compare left right)) : Emits config stmt.operands known (List.flatMap written)
      (stmt.branch compare) := by
  unfold Statement.branch
  split
  · rename_i left right place operands
    have members : (comparisonOrder left right).1 ∈ stmt.operands ∧
        (comparisonOrder left right).2 ∈ stmt.operands := by
      rcases comparisonOrder_cases left right with order | order <;> simp [order, operands]
    refine .check (compares _ _ members.1 members.2) fun build _ targets => ?_
    refine (emits_target (by simp [operands])).bind fun target => ?_
    exact .pure (by simp [targets])
  · exact .lift (lowers_rejectCount _)

end Forms

/-! ### Machines -/

/-- Whether instructions write no labels but the targets they are given. -/
structure Vocabulary.Writes {ι : Type} (words : Vocabulary ι) (written : ι → List Target) :
    Prop where
  moveTarget : ∀ target destination, written (words.moveTarget target destination) = [target]
  moveValue : ∀ value destination, Silent (List.flatMap written) (words.moveValue value destination)
  moveRegister : ∀ source destination, Silent written (words.moveRegister source destination)
  push : ∀ names, Silent (List.flatMap written) (words.push names)
  pop : ∀ names, Silent (List.flatMap written) (words.pop names)
  jump : ∀ target, written (words.jump target) = [target]
  jumpRegister : ∀ name, Silent written (words.jumpRegister name)
  call : ∀ target, written (words.call target) = [target]
  callRegister : ∀ name, Silent written (words.callRegister name)
  ret : Silent written words.ret
  trap : Silent written words.trap
  nop : Silent written words.nop

/-- Whether the instructions that a machine has for a statement write no labels but targets, and
what it reports is explained by the operands. -/
structure InstructionSet.Writes {ι : Type} (machine : InstructionSet ι)
    (config : Configuration) (stmt : Statement) (written : ι → List Target) : Prop where
  words : machine.vocabulary.Writes written
  arithmetic : ∀ operation source left destination, source ∈ stmt.operands →
    left ∈ stmt.operands → destination ∈ stmt.operands →
      Lowers config stmt.operands (Silent (List.flatMap written))
        (machine.arithmetic operation source left destination)
  loaded : ∀ source ∈ stmt.operands, Lowers config stmt.operands
    (fun build => ∀ destination, Silent (List.flatMap written) (build destination))
    (machine.loaded source)
  stored : Lowers config stmt.operands (Silent (List.flatMap written)) machine.stored
  compared : ∀ condition left right, left ∈ stmt.operands → right ∈ stmt.operands →
    Lowers config stmt.operands (fun build => ∀ target, (build target).flatMap written = [target])
      (machine.compared condition left right)
  pairs : ∀ pair ∈ machine.pairs?,
    Lowers config stmt.operands (Silent (List.flatMap written)) pair.1 ∧
      Lowers config stmt.operands (Silent (List.flatMap written)) pair.2

variable {config : Configuration} {stmt : Statement}

theorem InstructionSet.Writes.emits {ι : Type} {machine : InstructionSet ι}
    {written : ι → List Target} {known : List Target} {opcode : Opcode} {step : Emit (List ι)}
    (writes : machine.Writes config stmt written)
    (found : machine.lower? config stmt opcode = some step) :
    Emits config stmt.operands known (List.flatMap written) step := by
  have words := writes.words
  cases opcode with
  | addq | subq | loadq | storeq | loadpairq | storepairq =>
    obtain ⟨pair, present, rfl⟩ := Option.map_eq_some_iff.mp found
    first
    | exact .lift (lowers_combination (writes.arithmetic _))
    | exact .lift (lowers_load writes.loaded)
    | exact .lift writes.stored
    | exact .lift (writes.pairs pair present).1
    | exact .lift (writes.pairs pair present).2
  | _ =>
    obtain rfl := Option.some.inj found
    first
    | exact .lift (lowers_combination (writes.arithmetic _))
    | exact .lift (lowers_load writes.loaded)
    | exact .lift writes.stored
    | exact emits_move words.moveTarget words.moveValue words.moveRegister
    | exact .lift (lowers_registersForm fun names _ => words.push names)
    | exact .lift (lowers_registersForm fun names _ => words.pop names)
    | exact emits_transfer words.jump words.jumpRegister
    | exact emits_transfer words.call words.callRegister
    | exact .lift (lowers_bare (silent_single.mpr words.ret))
    | exact .lift (lowers_bare (silent_single.mpr words.trap))
    | exact .lift (lowers_bare (silent_single.mpr words.nop))
    | exact emits_branch (writes.compared _)

variable {node right : Node}

/-- The two words of a pair: what is built from the address of each, where the second is the word
after the first. -/
theorem lowers_consecutive {α β : Type} {memory : Memory} {formed : α → Prop} {ensured : β → Prop}
    {form : Memory → Checked α} {build : α → α → Checked β} (mem : node ∈ stmt.operands)
    (found : stmt.memory node = .ok memory)
    (forms : ∀ memory : Memory, Lowers config [memory.toNode] formed (form memory))
    (builds : ∀ first second, formed first → formed second →
      Lowers config stmt.operands ensured (build first second)) :
    Lowers config stmt.operands ensured (do
      let first ← form memory
      let next ← memory.shifted config 8
      let second ← form next
      build first second) := by
  refine (lowers_foundOperand mem found (forms memory)).bind fun first _ firstFormed => ?_
  refine (lowers_foundOperand mem found (lowers_shifted config 8 memory)).bind
    fun next shifted _ => ?_
  exact (lowers_shiftedOperand mem found shifted (forms next)).bind
    fun second _ secondFormed => builds _ _ firstFormed secondFormed

/-! ### 64-bit ARM -/

namespace Arm64

def Instruction.symbols : Instruction → List String
  | .addressOf _ target | .branch target | .call target | .branchIf _ target => target.symbols
  | _ => []

@[simp]
def Instruction.targets : Instruction → List Target
  | .addressOf _ target | .branch target | .call target | .branchIf _ target => [target]
  | _ => []

@[simp]
theorem silent_materialize (value : Int) (dest : String) :
    Silent (List.flatMap Instruction.targets) (materialize value dest) := by
  have chunk : ∀ shift, (keepChunk (Bits.word 64 value) dest shift).flatMap
      Instruction.targets = [] := by
    intro shift
    unfold keepChunk
    dsimp only
    split <;> rfl
  unfold materialize
  split
  · rfl
  · simp [Silent, chunk]

theorem silent_pushed (names : List String) :
    Silent (List.flatMap Instruction.targets) (pushed names) := by
  unfold pushed
  split <;> simp [Silent]

theorem silent_popped (names : List String) :
    Silent (List.flatMap Instruction.targets) (popped names) := by
  unfold popped
  split <;> simp [Silent]

theorem lowers_addressOf (memory : Memory) :
    Lowers config [memory.toNode] anything (addressOf config memory) := by
  cases memory <;> simp [addressOf]

theorem lowers_formAddress (isPair : Bool) (memory : Memory) : Lowers config [memory.toNode]
      (fun formed => Silent (List.flatMap Instruction.targets) formed.1)
      (formAddress config isPair memory) := by
  have plain := @lowers_addressOf config memory
  cases memory <;> simp [formAddress, plain]

theorem lowers_operand {isPair : Bool} (mem : node ∈ stmt.operands) : Lowers config stmt.operands
      (fun formed => Silent (List.flatMap Instruction.targets) formed.1)
      (memoryOperand config stmt isPair node) :=
  lowers_memoryOperand mem (lowers_formAddress isPair)

theorem lowers_comparison {left : Node} (leftMem : left ∈ stmt.operands)
    (rightMem : right ∈ stmt.operands) :
    Lowers config stmt.operands (Silent (List.flatMap Instruction.targets))
      (comparison config stmt left right) := by
  simp [comparison, *]

theorem writes_machine : (machine config stmt).Writes config stmt Instruction.targets where
  words := ⟨fun _ _ => rfl, silent_materialize, fun _ _ => rfl, silent_pushed, silent_popped,
    fun _ => rfl, fun _ => rfl, fun _ => rfl, fun _ => rfl, rfl, rfl, rfl⟩
  arithmetic operation source left dest sourceMem leftMem destinationMem := by
    simp [machine, arithmetic, *]
  loaded source mem :=
    (lowers_operand mem).bind fun formed _ silent => by simp [silent]
  stored := by
    simp only [machine, storeStatement]
    split
    · rename_i source dest operands
      have mem : source ∈ stmt.operands := by simp [operands]
      refine (lowers_operand (by simp [operands])).bind fun formed _ silent => ?_
      simp [mem, silent]
    · simp
  compared condition left right leftMem rightMem := by
    refine (lowers_comparison leftMem rightMem).bind fun lines _ silent => ?_
    simp_all [Silent]
  pairs := by
    rintro _ ⟨⟩
    constructor
    · simp only [loadPairStatement]
      split
      · rename_i source first second operands
        have mem : first ∈ stmt.operands ∧ second ∈ stmt.operands := by simp [operands]
        refine (lowers_operand (by simp [operands])).bind fun formed _ silent => ?_
        simp [mem, silent]
      · simp
    · simp only [storePairStatement]
      split
      · rename_i first second place operands
        have mem : first ∈ stmt.operands ∧ second ∈ stmt.operands := by simp [operands]
        simp only [mem, lowers_register, Lowers.bind_iff]
        intro _ _ _ _
        refine (lowers_operand (by simp [operands])).bind fun formed _ silent => ?_
        simp [silent]
      · simp

end Arm64

/-! ### 64-bit x86 -/

namespace X86

def Instruction.symbols : Instruction → List String
  | .addressOf target _ | .jump target | .call target | .jumpIf _ target => target.symbols
  | _ => []

@[simp]
def Instruction.targets : Instruction → List Target
  | .addressOf target _ | .jump target | .call target | .jumpIf _ target => [target]
  | _ => []

theorem lowers_addressOf (memory : Memory) :
    Lowers config [memory.toNode] anything (addressOf config memory) := by
  cases memory <;> simp [addressOf]

theorem lowers_source (mem : node ∈ stmt.operands) : Lowers config stmt.operands
      (fun built => Silent (List.flatMap Instruction.targets) built.1)
      (source config stmt node) := by
  simp [source, mem]

@[simp]
theorem silent_combine (operation : Arithmetic) (operand : Operand) (left dest : String) :
    Silent (List.flatMap Instruction.targets) (combine operation operand left dest) := by
  unfold combine
  split
  · rfl
  split
  · cases operation <;> rfl
  · rfl

theorem silent_immediateMove (value : Int) (dest : String) :
    Silent (List.flatMap Instruction.targets) (immediateMove value dest) := by
  unfold immediateMove
  split <;> rfl

theorem writes_machine : (machine config stmt).Writes config stmt Instruction.targets where
  words := ⟨fun _ _ => rfl, silent_immediateMove, fun _ _ => rfl,
    fun _ => by simp [machine, Silent], fun _ => by simp [machine, Silent],
    fun _ => rfl, fun _ => rfl, fun _ => rfl, fun _ => rfl, rfl, rfl, rfl⟩
  arithmetic operation right left dest rightMem leftMem destinationMem := by
    simp only [machine, arithmetic, lowers_register, leftMem, destinationMem, Lowers.bind_iff]
    intro _ _ _ _
    exact (lowers_source rightMem).bind fun built _ silent => by simp [silent]
  loaded place mem :=
    (lowers_memoryOperand mem lowers_addressOf).bind fun _ _ _ => by simp
  stored := by
    simp only [machine, storeStatement]
    split
    · rename_i right place operands
      refine (lowers_source (by simp [operands])).bind fun built _ silent => ?_
      refine (lowers_memoryOperand (by simp [operands]) lowers_addressOf).bind fun _ _ _ => ?_
      simp [silent]
    · simp
  compared condition left right leftMem rightMem := by
    refine (lowers_register config leftMem).bind fun _ _ _ => ?_
    refine (lowers_source rightMem).bind fun built _ silent => ?_
    simp_all [Silent]
  pairs := by
    rintro _ ⟨⟩
    constructor
    · simp only [loadPairStatement]
      split
      · rename_i place first second operands
        have mem : first ∈ stmt.operands ∧ second ∈ stmt.operands := by simp [operands]
        refine lowers_memory.bind fun memory found _ => ?_
        simp only [mem, lowers_register, Lowers.bind_iff]
        intro _ _ _ _
        exact lowers_consecutive (by simp [operands]) found lowers_addressOf fun _ _ _ _ => by simp
      · simp
    · simp only [storePairStatement]
      split
      · rename_i first second place operands
        have mem : first ∈ stmt.operands ∧ second ∈ stmt.operands := by simp [operands]
        simp only [mem, lowers_register, Lowers.bind_iff]
        intro _ _ _ _
        refine lowers_memory.bind fun memory found _ => ?_
        exact lowers_consecutive (by simp [operands]) found lowers_addressOf fun _ _ _ _ => by simp
      · simp

end X86

/-! ### 64-bit RISC-V -/

namespace Riscv

def Instruction.symbols : Instruction → List String
  | .loadAddress _ target | .jump target | .call target | .branchIf _ _ _ target => target.symbols
  | _ => []

@[simp]
def Instruction.targets : Instruction → List Target
  | .loadAddress _ target | .jump target | .call target | .branchIf _ _ _ target => [target]
  | _ => []

theorem lowers_addressOf (memory : Memory) :
    Lowers config [memory.toNode] anything (addressOf config memory) := by
  cases memory with
  | indexed => exact (lowers_dump _).bind fun _ _ _ => .report rfl
  | direct | absolute => simp [addressOf]

theorem lowers_formAddress (memory : Memory) : Lowers config [memory.toNode]
      (fun formed => Silent (List.flatMap Instruction.targets) formed.1)
      (formAddress config memory) := by
  cases memory <;> simp [formAddress]

theorem silent_storeSlots (slot : Nat) (names : List String) :
    Silent (List.flatMap Instruction.targets) (storeSlots slot names) := by
  induction names generalizing slot with
  | nil => rfl
  | cons name rest ih => exact ih (slot + 1)

theorem silent_loadSlots (slot : Nat) (names : List String) :
    Silent (List.flatMap Instruction.targets) (loadSlots slot names) := by
  induction names generalizing slot with
  | nil => rfl
  | cons name rest ih => exact ih (slot + 1)

theorem lowers_storedValue {source : Node} (mem : source ∈ stmt.operands) :
    Lowers config stmt.operands (fun stored => Silent (List.flatMap Instruction.targets) stored.1)
      (storedValue config stmt source) := by
  simp [storedValue, mem]

theorem lowers_comparedValue (mem : right ∈ stmt.operands) : Lowers config stmt.operands
      (fun filled => Silent (List.flatMap Instruction.targets) filled.1)
      (comparedValue config stmt right) := by
  simp [comparedValue, mem]

theorem writes_machine : (machine config stmt).Writes config stmt Instruction.targets where
  words := ⟨fun _ _ => rfl, fun _ _ => rfl, fun _ _ => rfl, silent_storeSlots 0,
    fun names => by simp [machine, popped, silent_loadSlots],
    fun _ => rfl, fun _ => rfl, fun _ => rfl, fun _ => rfl, rfl, rfl, rfl⟩
  arithmetic operation source left dest sourceMem leftMem destinationMem := by
    simp [machine, arithmetic, *]
  loaded source mem :=
    (lowers_memoryOperand mem lowers_formAddress).bind fun formed _ silent => by simp [silent]
  stored := by
    simp only [machine, storeStatement]
    split
    · rename_i source dest operands
      refine (lowers_storedValue (by simp [operands])).bind fun stored _ silent => ?_
      refine (lowers_memoryOperand (by simp [operands]) lowers_formAddress).bind
        fun formed _ formedSilent => ?_
      simp [silent, formedSilent]
    · simp
  compared condition left right leftMem rightMem := by
    refine (lowers_register config leftMem).bind fun _ _ _ => ?_
    refine (lowers_comparedValue rightMem).bind fun filled _ silent => ?_
    simp_all [Silent]
  pairs := by
    rintro _ ⟨⟩
    simp only [loadPairStatement, storePairStatement]
    constructor <;> split
    · rename_i place first second operands
      have mem : first ∈ stmt.operands ∧ second ∈ stmt.operands := by simp [operands]
      refine lowers_memory.bind fun memory found _ => ?_
      exact lowers_consecutive (by simp [operands]) found lowers_formAddress
        fun formed next silent nextSilent => by simp [mem, silent, nextSilent]
    · simp
    · rename_i first second place operands
      have mem : first ∈ stmt.operands ∧ second ∈ stmt.operands := by simp [operands]
      refine lowers_memory.bind fun memory found _ => ?_
      exact lowers_consecutive (by simp [operands]) found lowers_formAddress
        fun formed next silent nextSilent => by simp [mem, silent, nextSilent]
    · simp

end Riscv

/-! ### 32-bit ARM -/

namespace Armv7

def Instruction.symbols : Instruction → List String
  | .addressOf _ target | .branch target | .call target | .branchIf _ target => target.symbols
  | _ => []

@[simp]
def Instruction.targets : Instruction → List Target
  | .addressOf _ target | .branch target | .call target | .branchIf _ target => [target]
  | _ => []

@[simp]
theorem silent_materialize (value : Int) (dest : String) :
    Silent (List.flatMap Instruction.targets) (materialize value dest) := by
  unfold materialize
  dsimp only
  split <;> rfl

theorem lowers_addressOf (memory : Memory) :
    Lowers config [memory.toNode] anything (addressOf config memory) := by
  cases memory <;> simp [addressOf]

theorem lowers_comparison {left : Node} (leftMem : left ∈ stmt.operands)
    (rightMem : right ∈ stmt.operands) :
    Lowers config stmt.operands (Silent (List.flatMap Instruction.targets))
      (comparison config stmt left right) := by
  simp [comparison, *]

theorem writes_machine : (machine config stmt).Writes config stmt Instruction.targets where
  words := ⟨fun _ _ => rfl, silent_materialize, fun _ _ => rfl,
    fun _ => by simp [machine, Silent], fun _ => by simp [machine, Silent],
    fun _ => rfl, fun _ => rfl, fun _ => rfl, fun _ => rfl, rfl, rfl, rfl⟩
  arithmetic operation source left dest sourceMem leftMem destinationMem := by
    simp [machine, arithmetic, *]
  loaded source mem :=
    (lowers_memoryOperand mem lowers_addressOf).bind fun _ _ _ => by simp
  stored := by
    simp only [machine, storeStatement]
    split
    · rename_i source dest operands
      have mem : source ∈ stmt.operands := by simp [operands]
      refine (lowers_memoryOperand (by simp [operands]) lowers_addressOf).bind fun _ _ _ => ?_
      simp [mem]
    · simp
  compared condition left right leftMem rightMem := by
    refine (lowers_comparison leftMem rightMem).bind fun lines _ silent => ?_
    simp_all [Silent]
  pairs _ present := absurd present (Option.not_mem_none _)

end Armv7

end MacroAssembler
