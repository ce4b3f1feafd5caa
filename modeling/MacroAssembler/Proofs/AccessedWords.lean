/-
This module proves that loads and stores access the word at the address that their memory operand
stands for.

The address is the one before the first line. A store may first build an immediate in a scratch
register, and both kinds may first form the address in one. The two are different registers, and
neither is a register of the operands, so the address and the value are still those of the start
when the word is accessed. Nothing else is read or written.

A scale that is written as the value `true` is the exception: x86 writes it as `True`, which is not
a scale.
-/
import MacroAssembler.Proofs.FormedAddresses
import MacroAssembler.Proofs.InstructionSets

namespace MacroAssembler

open List

variable {bits : Nat}

/-! ### Loads and stores -/

/-- Whether a state differs from an earlier one by a word that was loaded into a register, and by
scratch registers. -/
structure MachineState.Loads (scratch : List MachineRegister) (target : MachineRegister)
    (address : BitVec bits) (before after : MachineState bits) : Prop where
  loaded : after.registers target = before.memory.word address
  kept : ∀ register, register ∉ target :: scratch →
    after.registers register = before.registers register
  memory : after.memory = before.memory
  accesses : after.accesses = before.accesses ++ [.read address]

/-- Whether a state differs from an earlier one by a word that was stored at an address, and by
scratch registers. -/
structure MachineState.Stores (scratch : List MachineRegister) (address value : BitVec bits)
    (before after : MachineState bits) : Prop where
  stored : after.memory.word address = value
  outside : ∀ place, bits / 8 ≤ ByteMemory.distance address place →
    after.memory place = before.memory place
  kept : ∀ register, register ∉ scratch → after.registers register = before.registers register
  accesses : after.accesses = before.accesses ++ [.write address]

/-- Whether effects make the value of a source operand available, also after further changes to
some registers. -/
def Prepares (bits : Nat) (file : RegisterFile) (isTaken : MachineRegister → Bool)
    (scratch : List MachineRegister) (source : Source) (effects : List Effect)
    (value : Expression) : Prop :=
  ∀ state : MachineState bits, ∃ prepared, run file effects state = some prepared ∧
    state.ChangesOnly file.scratch prepared ∧
    ∀ after, prepared.ChangesOnly scratch after →
      value.value? file isTaken after = some (source.value state)

section Accesses

variable {file : RegisterFile} {isTaken : MachineRegister → Bool} {scratch : List MachineRegister}
  {config : Configuration}
  {memory : Memory} {place : Place} {effects building : List Effect} {mode value : Expression}
  {name : String} {register : MachineRegister} {source : Source} {fixed : Int}

theorem Forms.load (forms : Forms bits file scratch place effects mode)
    (inside : scratch ⊆ file.scratch) (named : file.taken? file.moves name = some register)
    (state : MachineState bits) :
    ∃ after, run file (effects ++ [.load name mode]) state = some after ∧
      state.Loads file.scratch register (place.address state) after := by
  obtain ⟨middle, runs, changes, formed⟩ := forms state
  refine ⟨middle.load register (place.address state), ?_, ?_, ?_, changes.memory, ?_⟩
  · rw [run_append _ runs, run_cons, Effect.step_load named formed]
    rfl
  · rw [MachineState.load_registers, Function.update_self, changes.memory]
  · intro other kept
    obtain ⟨apart, spare⟩ := not_or.mp (mem_cons.not.mp kept)
    rw [MachineState.load_registers, Function.update_of_ne apart,
      changes.registers other fun mem => spare (inside mem)]
  · rw [MachineState.load_accesses, changes.accesses]

theorem Forms.store (whole : 8 ∣ bits) (forms : Forms bits file scratch place effects mode)
    (stands : memory.Stands config file place) (inside : scratch ⊆ file.scratch)
    (prepares : Prepares bits file file.moves scratch source building value)
    (state : MachineState bits) :
    ∃ after, run file (building ++ (effects ++ [.store value mode])) state = some after ∧
      state.Stores file.scratch (place.address state) (source.value state) after := by
  obtain ⟨prepared, builds, changes, available⟩ := prepares state
  obtain ⟨middle, runs, moreChanges, formed⟩ := forms prepared
  rw [stands.address_eq changes (List.Subset.refl _)] at formed
  have changed := changes.trans (moreChanges.mono inside)
  refine ⟨middle.store (place.address state) (source.value state), ?_,
    ByteMemory.word_withWord whole .., fun other outside => ?_, changed.registers, ?_⟩
  · rw [run_append _ builds, run_append _ runs, run_cons,
      Effect.step_store (available middle moreChanges) formed]
    rfl
  · rw [MachineState.store_memory, ByteMemory.withWord_outside _ _ outside, changed.memory]
  · rw [MachineState.store_accesses, changed.accesses]

theorem prepares_register {node : Node} (inside : scratch ⊆ file.scratch)
    (spells : node.Spells config file isTaken name register) :
    Prepares bits file isTaken scratch (.register register) [] (.register name) := by
  refine fun state => ⟨state, rfl, .refl _ _, fun after changes => ?_⟩
  rw [Expression.value?_register spells.named, Source.value,
    changes.registers register fun mem => spells.spare (inside mem)]

theorem prepares_constant (valued : ∀ state : MachineState bits,
      value.value? file isTaken state = some (BitVec.ofInt bits fixed)) :
    Prepares bits file isTaken scratch (.immediate fixed) [] value :=
  fun state => ⟨state, rfl, .refl _ _, fun after _ => valued after⟩

theorem prepares_built (mem : register ∈ file.scratch) (apart : register ∉ scratch)
    (named : file.taken? isTaken name = some register)
    (builds : ∀ state : MachineState bits, run file building state =
      some (state.set register (BitVec.ofInt bits fixed))) :
    Prepares bits file isTaken scratch (.immediate fixed) building (.register name) := by
  refine fun state => ⟨_, builds state, state.changesOnly_set mem _, fun after changes => ?_⟩
  rw [Expression.value?_register named, changes.registers register apart,
    MachineState.set_registers, Function.update_self, Source.value]

end Accesses

/-! ### Lowered accesses -/

/-- Whether lines that lowering succeeds with lead to a state that is related to the one before. -/
def Accomplishes {ι : Type} (wrap : ι → MachineInstruction) (file : RegisterFile)
    (related : MachineState bits → MachineState bits → Prop) (lowered : Checked (List ι)) : Prop :=
  ∀ lines, lowered = .ok lines → ∀ state, ∃ after,
    run file (lines.flatMap fun line => (wrap line).effects) state = some after ∧
      related state after

/-- Whether code is a list of lines whose execution leads from every state to a related one. -/
def Assembly.Code.Leads (code : Assembly.Code) (file : RegisterFile)
    (related : MachineState bits → MachineState bits → Prop) : Prop :=
  ∃ lines, code = .statements lines ∧
    ∀ state, ∃ after, execute file lines state = some after ∧ related state after

variable {tableAfter table : SymbolTable} {code : Assembly.Code} {ι : Type}
  {wrap : ι → MachineInstruction} {opcode : Opcode}

theorem Accomplishes.lower {config : Configuration} {stmt : Statement}
    {lowered : Checked (List ι)} {file : RegisterFile}
    {related : MachineState bits → MachineState bits → Prop}
    (accomplishes : Accomplishes wrap file related lowered)
    (lowers : Assembly.LowersTo config stmt opcode wrap lowered)
    (ran : (Assembly.lower config stmt.toNode).perform table =
      (.ok code, tableAfter)) : code.Leads file related := by
  rw [lowers.perform_lower] at ran
  cases lowered with
  | error failure => cases ran
  | ok lines =>
    cases ran
    refine ⟨_, rfl, ?_⟩
    simp only [execute, Line.flatMap_effects_ofInstructions, flatMap_map]
    exact accomplishes lines rfl

section Statements

variable {config : Configuration} {stmt : Statement} {node operand : Node}
  {memory : Memory} {place : Place} {name : String} {target : MachineRegister} {source : Source}

theorem Statement.memory_eq (isMemory : Memory.ofNode? node = some memory) :
    stmt.memory node = .ok memory := by
  rw [Statement.memory, isMemory]

theorem accomplishes_load {file : RegisterFile} {scratch : List MachineRegister}
    {read : Node → Checked (String → List ι)} (operands : stmt.operands = [node, operand])
    (spells : operand.Spells config file file.moves name target) (inside : scratch ⊆ file.scratch)
    (reads : ∀ build, read node = .ok build → ∃ effects mode,
      Forms bits file scratch place effects mode ∧
        ((build name).flatMap fun line => (wrap line).effects) = effects ++ [.load name mode]) :
    Accomplishes wrap file
      (fun state : MachineState bits => state.Loads file.scratch target (place.address state))
      (stmt.load config read) := by
  intro lines ran
  simp only [Statement.load, operands, spells.operand] at ran
  obtain ⟨build, isRead, rest⟩ := Checked.bind_ok.mp ran
  cases rest
  obtain ⟨effects, mode, forms, same⟩ := reads build isRead
  rw [same]
  exact forms.load inside spells.named

structure InstructionSet.Accesses {ι : Type} (machine : InstructionSet ι) (bits : Nat)
    (wrap : ι → MachineInstruction) (file : RegisterFile) (config : Configuration)
    (stmt : Statement) (node : Node) (place : Place) : Prop where
  loads : ∀ operand name target, stmt.operands = [node, operand] →
    operand.Spells config file file.moves name target → Accomplishes wrap file
        (fun state : MachineState bits => state.Loads file.scratch target (place.address state))
        (stmt.load config machine.loaded)
  stores : ∀ operand source, stmt.operands = [operand, node] →
    operand.Gives config file file.moves source → Accomplishes wrap file
        (fun state : MachineState bits =>
          state.Stores file.scratch (place.address state) (source.value state))
        machine.stored

namespace Arm64

theorem addressScratch_inside : [.integer 16] ⊆ registerFile.scratch := by
  decide +kernel

theorem accesses_machine (isMemory : Memory.ofNode? node = some memory)
    (stands : memory.Stands config registerFile place) :
    (machine config stmt).Accesses 64 .arm64 registerFile config stmt node place where
  loads operand name target operands spells := by
    refine accomplishes_load operands spells addressScratch_inside fun build isRead => ?_
    simp only [machine, loaded, memoryOperand, Statement.memory_eq isMemory, Checked.ok_bind] at isRead
    obtain ⟨formed, forms, rest⟩ := Checked.bind_ok.mp isRead
    cases rest
    exact ⟨_, _, forms_formAddress stands forms, flatMap_append⟩
  stores operand source operands gives lines ran := by
    simp only [machine, storeStatement, operands, memoryOperand, Statement.memory_eq isMemory,
      Checked.ok_bind] at ran
    obtain ⟨⟨forming, mode⟩, formed, rest⟩ := Checked.bind_ok.mp ran
    have forms := @forms_formAddress 64 _ _ _ _ _ _ stands formed
    cases gives with
    | register spells =>
      simp only [spells.notLiteral, spells.operand, Checked.ok_bind, Bool.false_eq_true,
        if_false] at rest
      cases rest
      rw [flatMap_append]
      exact forms.store (by decide) stands addressScratch_inside
        (prepares_register addressScratch_inside spells)
    | @immediate value isLiteral evaluated =>
      simp only [isLiteral, evaluated, Checked.ok_bind, if_true] at rest
      split at rest
      next zero =>
        subst zero
        cases rest
        rw [flatMap_append]
        exact forms.store (by decide) stands addressScratch_inside (prepares_constant fun _ => rfl)
      next =>
        cases rest
        rw [flatMap_append, flatMap_append, append_assoc]
        exact forms.store (by decide) stands addressScratch_inside
          (prepares_built (by decide +kernel) (by decide) (by decide +kernel)
            (run_materialize scratch_named value))

end Arm64

variable {lines : List Instruction}

namespace X86

theorem prepares_source {value : Operand}
    (gives : operand.Gives config registerFile registerFile.moves source)
    (ran : X86.source config stmt operand = .ok (lines, value)) :
    Prepares 64 registerFile registerFile.moves [] source (lines.flatMap Instruction.effects)
      value.expression := by
  cases gives with
  | register spells =>
    simp only [X86.source, spells.notLiteral, spells.operand, Checked.ok_bind, Bool.false_eq_true,
      if_false] at ran
    cases ran
    exact prepares_register (nil_subset _) spells
  | @immediate value isLiteral evaluated =>
    simp only [X86.source, isLiteral, evaluated, Checked.ok_bind, if_true] at ran
    split at ran
    next =>
      cases ran
      exact prepares_constant fun _ => rfl
    next =>
      cases ran
      exact prepares_built (by decide +kernel) not_mem_nil (by decide +kernel)
        (run_constant scratch_named value)

theorem accesses_machine (isMemory : Memory.ofNode? node = some memory)
    (stands : memory.Stands config registerFile place) (isNumber : place.scale? ≠ some .truth) :
    (machine config stmt).Accesses 64 .x86 registerFile config stmt node place where
  loads operand name target operands spells := by
    refine accomplishes_load operands spells (nil_subset _) fun build isRead => ?_
    simp only [machine, loaded, memoryOperand, Statement.memory_eq isMemory, Checked.ok_bind] at isRead
    obtain ⟨mode, formed, rest⟩ := Checked.bind_ok.mp isRead
    cases rest
    exact ⟨_, _, forms_addressOf stands isNumber formed, rfl⟩
  stores operand source operands gives lines ran := by
    simp only [machine, storeStatement, operands, memoryOperand, Statement.memory_eq isMemory] at ran
    obtain ⟨⟨building, value⟩, built, rest⟩ := Checked.bind_ok.mp ran
    obtain ⟨mode, formed, rest⟩ := Checked.bind_ok.mp rest
    cases rest
    rw [flatMap_append]
    exact (forms_addressOf stands isNumber formed).store (by decide) stands (nil_subset _)
      (prepares_source gives built)

end X86

namespace Riscv

theorem scratch_inside : [.integer 31] ⊆ registerFile.scratch := by
  decide +kernel

/-- An immediate is in a scratch register other than the one that the address is formed in. -/
theorem prepares_storedValue {register : String}
    (gives : operand.Gives config registerFile registerFile.moves source)
    (ran : storedValue config stmt operand = .ok (lines, register)) :
    Prepares 64 registerFile registerFile.moves [.integer 31] source
      (lines.flatMap Instruction.effects) (.register register) := by
  cases gives with
  | register spells =>
    simp only [storedValue, spells.notLiteral, spells.operand, Checked.ok_bind, Bool.false_eq_true,
      if_false] at ran
    cases ran
    exact prepares_register scratch_inside spells
  | @immediate value isLiteral evaluated =>
    simp only [storedValue, isLiteral, evaluated, Checked.ok_bind, if_true] at ran
    split at ran
    next zero =>
      subst zero
      cases ran
      exact prepares_constant fun _ => rfl
    next =>
      cases ran
      have named : registerFile.integer? valueScratch = some (.integer 30) := by decide +kernel
      exact prepares_built (by decide +kernel) (by decide) (by decide +kernel)
        (run_constant named value)

theorem accesses_machine (isMemory : Memory.ofNode? node = some memory)
    (stands : memory.Stands config registerFile place) :
    (machine config stmt).Accesses 64 .riscv registerFile config stmt node place where
  loads operand name target operands spells := by
    refine accomplishes_load operands spells scratch_inside fun build isRead => ?_
    simp only [machine, loaded, memoryOperand, Statement.memory_eq isMemory, Checked.ok_bind] at isRead
    obtain ⟨formed, forms, rest⟩ := Checked.bind_ok.mp isRead
    cases rest
    exact ⟨_, _, forms_formAddress stands forms, flatMap_append⟩
  stores operand source operands gives lines ran := by
    simp only [machine, storeStatement, operands, memoryOperand, Statement.memory_eq isMemory] at ran
    obtain ⟨⟨building, value⟩, built, rest⟩ := Checked.bind_ok.mp ran
    obtain ⟨⟨forming, mode⟩, formed, rest⟩ := Checked.bind_ok.mp rest
    cases rest
    rw [flatMap_append, flatMap_append, append_assoc]
    exact (forms_formAddress stands formed).store (by decide) stands scratch_inside
      (prepares_storedValue gives built)

end Riscv

namespace Armv7

theorem accesses_machine (isMemory : Memory.ofNode? node = some memory)
    (stands : memory.Stands config registerFile place) :
    (machine config stmt).Accesses 32 .armv7 registerFile config stmt node place where
  loads operand name target operands spells := by
    refine accomplishes_load operands spells (nil_subset _) fun build isRead => ?_
    simp only [machine, loaded, memoryOperand, Statement.memory_eq isMemory, Checked.ok_bind] at isRead
    obtain ⟨mode, formed, rest⟩ := Checked.bind_ok.mp isRead
    cases rest
    exact ⟨_, _, forms_addressOf stands formed, rfl⟩
  stores operand source operands gives lines ran := by
    simp only [machine, storeStatement, operands, memoryOperand, Statement.memory_eq isMemory,
      Checked.ok_bind] at ran
    obtain ⟨mode, formed, rest⟩ := Checked.bind_ok.mp ran
    have forms := @forms_addressOf 32 _ _ _ _ stands formed
    cases gives with
    | register spells =>
      simp only [spells.notLiteral, spells.operand, Checked.ok_bind, Bool.false_eq_true,
        if_false] at rest
      cases rest
      exact forms.store (by decide) stands (nil_subset _) (prepares_register (nil_subset _) spells)
    | @immediate value isLiteral evaluated =>
      simp only [isLiteral, evaluated, Checked.ok_bind, if_true] at rest
      cases rest
      rw [flatMap_append]
      exact forms.store (by decide) stands (nil_subset _)
        (prepares_built (by decide +kernel) not_mem_nil (by decide +kernel)
          (run_materialize scratch_named value))

end Armv7

end Statements

/-! ### Statements -/

theorem InstructionSet.Accesses.accessed {machine : InstructionSet ι}
    {config : Configuration} {stmt : Statement} {node operand : Node} {place : Place}
    (own : config.SpellsOwnRegisters)
    (accesses : machine.Accesses bits wrap config.architecture.registerFile config stmt node place)
    (lowersLoad : opcode = .loadp ∨ opcode = .loadq → Assembly.LowersTo config stmt
      opcode wrap (stmt.load config machine.loaded))
    (lowersStore : opcode = .storep ∨ opcode = .storeq → Assembly.LowersTo config stmt
      opcode wrap machine.stored) (ran : (Assembly.lower config stmt.toNode).perform table =
      (.ok code, tableAfter)) :
    (∀ target, opcode = .loadp ∨ opcode = .loadq → stmt.operands = [node, operand] →
      operand.machineRegister? config config.architecture.registerFile.moves = some target →
      code.Leads config.architecture.registerFile fun state : MachineState bits =>
        state.Loads config.architecture.registerFile.scratch target (place.address state)) ∧
    ∀ source, opcode = .storep ∨ opcode = .storeq → stmt.operands = [operand, node] →
      operand.source? config config.architecture.registerFile.moves = some source →
      code.Leads config.architecture.registerFile fun state : MachineState bits =>
        state.Stores config.architecture.registerFile.scratch (place.address state)
          (source.value state) := by
  refine ⟨fun target isLoad operands isTarget => ?_, fun source isStore operands isSource => ?_⟩
  · obtain ⟨name, spells⟩ := operand.exists_spells own isTarget
    exact (accesses.loads _ _ _ operands spells).lower (lowersLoad isLoad) ran
  · have gives := operand.gives_of_source? own isSource
    exact (accesses.stores _ _ operands gives).lower (lowersStore isStore) ran

/-- A load or a store accesses the word at the place of its memory operand, and no other: the load
puts the word into its target and the store writes the value of its source, both from the registers
before the first line. -/
theorem Assembly.word_accessed {config : Configuration}
    (own : config.SpellsOwnRegisters)
    (assembles : config.architecture.emitsHostCode = false) (statement : Statement)
    {opcode : Opcode} (named : statement.opcode = opcode.name)
    (present : config.architecture = .armv7 → opcode = .loadp ∨ opcode = .storep)
    {node operand : Node} {memory : Memory} {place : Place}
    (isMemory : Memory.ofNode? node = some memory)
    (stands : memory.place? config = some place)
    (isNumber : config.architecture = .x86 → place.scale? ≠ some .truth)
    {table tableAfter : SymbolTable} {code : Code}
    (succeeded : (lower config statement.toNode).perform table = (.ok code, tableAfter)) :
    (∀ target, opcode = .loadp ∨ opcode = .loadq → statement.operands = [node, operand] →
      operand.machineRegister? config config.architecture.registerFile.moves =
        some target →
      code.Leads config.architecture.registerFile
        fun state : MachineState config.architecture.wordBits =>
          state.Loads config.architecture.registerFile.scratch target
            (place.address state)) ∧
    ∀ source, opcode = .storep ∨ opcode = .storeq → statement.operands = [operand, node] →
      operand.source? config config.architecture.registerFile.moves = some source →
      code.Leads config.architecture.registerFile
        fun state : MachineState config.architecture.wordBits =>
          state.Stores config.architecture.registerFile.scratch (place.address state)
            (source.value state) := by
  have parts := memory.stands_of_place? own stands
  obtain ⟨architecture, features, names, layout⟩ := config
  cases architecture with
  | arm64 | arm64e =>
    refine (Arm64.accesses_machine isMemory parts).accessed own (fun isLoad => lowersTo named ?_)
      (fun isStore => lowersTo named ?_) succeeded
    · rcases isLoad with rfl | rfl <;> rfl
    · rcases isStore with rfl | rfl <;> rfl
  | x86 =>
    refine (X86.accesses_machine isMemory parts (isNumber rfl)).accessed own
      (fun isLoad => lowersTo named ?_)
      (fun isStore => lowersTo named ?_) succeeded
    · rcases isLoad with rfl | rfl <;> rfl
    · rcases isStore with rfl | rfl <;> rfl
  | riscv =>
    refine (Riscv.accesses_machine isMemory parts).accessed own (fun isLoad => lowersTo named ?_)
      (fun isStore => lowersTo named ?_) succeeded
    · rcases isLoad with rfl | rfl <;> rfl
    · rcases isStore with rfl | rfl <;> rfl
  | armv7 =>
    refine (Armv7.accesses_machine isMemory parts).accessed own (fun isLoad => lowersTo named ?_)
      (fun isStore => lowersTo named ?_) succeeded
    · rcases present rfl with rfl | rfl <;> rcases isLoad with isLoad | isLoad <;> cases isLoad
      rfl
    · rcases present rfl with rfl | rfl <;> rcases isStore with isStore | isStore <;> cases isStore
      rfl
  | loop => cases assembles

def wideStore : Statement :=
  ⟨.nowhere, "storep", [.immediate .nowhere (2 ^ 40),
    .address .nowhere (.register .nowhere .general "t0") (.immediate .nowhere 4096)], .null⟩

/-- A machine with short immediates needs both scratch registers. -/
theorem Assembly.word_accessed_wide :
    ∃ code, (lower (.ofArchitecture .riscv) wideStore.toNode).perform {} = (.ok code, {}) ∧
      code.Leads Riscv.registerFile fun state : MachineState 64 =>
        state.Stores [.integer 31, .integer 30]
          (state.registers (.integer 10) + BitVec.ofInt 64 4096) (BitVec.ofInt 64 (2 ^ 40)) := by
  have scratch : Riscv.registerFile.scratch = [.integer 31, .integer 30] := by decide +kernel
  rw [← scratch]
  obtain ⟨code, succeeded⟩ :
      ∃ code, (lower (.ofArchitecture .riscv) wideStore.toNode).perform {} = (.ok code, {}) :=
    ⟨_, rfl⟩
  refine ⟨code, succeeded, ?_⟩
  refine (word_accessed (Configuration.ofArchitecture_spellsOwnRegisters .riscv) rfl wideStore
    (rfl : _ = Opcode.storep.name) nofun rfl (?_ : _ = some (Place.direct (.integer 10) 4096)) nofun
    succeeded).2 (.immediate (2 ^ 40)) (.inl rfl) rfl ?_
  all_goals decide +kernel

/-- A load whose scale is written as the value `true`. -/
def truthScaledLoad : Statement :=
  ⟨.nowhere, "loadp", [.indexed .nowhere (.register .nowhere .general "t0")
    (.register .nowhere .general "t1") (.plain .nowhere (.truth true)) (.immediate .nowhere 0),
    .register .nowhere .general "t2"], .null⟩

/-- The scale counts as one, but it is written as a word that stands for no scale. -/
theorem Assembly.truthScaledLoad_meaningless :
    ∃ lines, (lower (.ofArchitecture .x86) truthScaledLoad.toNode).perform {} =
        (.ok (.statements lines), {}) ∧
      lines.map Line.text = ["\"\\tmovq 0(%rax, %rsi, True), %rdx\\n\""] ∧
      ∀ state : MachineState 64, execute X86.registerFile lines state = none := by
  refine ⟨_, rfl, by decide +kernel, fun state => ?_⟩
  rfl

end MacroAssembler
