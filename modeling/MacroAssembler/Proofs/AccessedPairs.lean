/-
This module says which words the lines for a pair of words access.

A pair is a word and the one eight bytes after it. 64-bit ARM has one instruction for both words.
The other machines with eight-byte forms access one after the other, and they form the address of
the second word after the first access. For a store that makes no difference. A load may have
overwritten a register of the address by then: the second word is loaded from the address that the
memory operand has with the first word in that register.
-/
import MacroAssembler.Proofs.AccessedWords

namespace MacroAssembler

open List

/-! ### Pairs of words -/

namespace MachineState

/-- Whether a state differs from an earlier one by two words that were loaded into registers, and
by scratch registers. -/
structure LoadsPair (scratch : List MachineRegister) (first second : MachineRegister)
    (address next : BitVec 64) (before after : MachineState 64) : Prop where
  firstLoaded : after.registers first = before.memory.word address
  secondLoaded : after.registers second = before.memory.word next
  kept : ∀ register, register ∉ first :: second :: scratch →
    after.registers register = before.registers register
  memory : after.memory = before.memory
  accesses : after.accesses = before.accesses ++ [.read address, .read next]

/-- Whether a state differs from an earlier one by two words that were stored one after the other,
and by scratch registers. -/
structure StoresPair (scratch : List MachineRegister) (address first second : BitVec 64)
    (before after : MachineState 64) : Prop where
  firstStored : after.memory.word address = first
  secondStored : after.memory.word (address + 8) = second
  outside : ∀ place, 16 ≤ ByteMemory.distance address place →
    after.memory place = before.memory place
  kept : ∀ register, register ∉ scratch → after.registers register = before.registers register
  accesses : after.accesses = before.accesses ++ [.write address, .write (address + 8)]

variable {scratch : List MachineRegister} {first second : MachineRegister}
  {address next value nextValue : BitVec 64} {state middle later : MachineState 64}

theorem ChangesOnly.loadsPair (changes : state.ChangesOnly scratch middle)
    (changesLater : (middle.load first address).ChangesOnly scratch later)
    (apart : first ≠ second) (spare : first ∉ scratch) :
    state.LoadsPair scratch first second address next (later.load second next) where
  firstLoaded := by
    rw [load_registers, Function.update_of_ne apart, changesLater.registers first spare,
      load_registers, Function.update_self, changes.memory]
  secondLoaded := by
    rw [load_registers, Function.update_self, changesLater.memory, load_memory, changes.memory]
  kept register kept := by
    simp only [mem_cons, not_or] at kept
    obtain ⟨notFirst, notSecond, notScratch⟩ := kept
    rw [load_registers, Function.update_of_ne notSecond, changesLater.registers _ notScratch,
      load_registers, Function.update_of_ne notFirst, changes.registers _ notScratch]
  memory := by rw [load_memory, changesLater.memory, load_memory, changes.memory]
  accesses := by
    rw [load_accesses, changesLater.accesses, load_accesses, changes.accesses, append_assoc]
    rfl

theorem ChangesOnly.storesPair (changes : state.ChangesOnly scratch middle)
    (changesLater : (middle.store address value).ChangesOnly scratch later) :
    state.StoresPair scratch address value nextValue (later.store (address + 8) nextValue) where
  firstStored := by
    rw [store_memory, ByteMemory.word_withWord_of_apart (by decide), changesLater.memory,
      store_memory, ByteMemory.word_withWord (by decide)]
    intro number inside
    unfold ByteMemory.distance
    bv_omega
  secondStored := ByteMemory.word_withWord (by decide) ..
  outside place outside := by
    have outsideNext : 8 ≤ ByteMemory.distance (address + 8) place := by
      unfold ByteMemory.distance at outside ⊢
      bv_omega
    rw [store_memory, ByteMemory.withWord_outside _ _ outsideNext, changesLater.memory,
      store_memory, ByteMemory.withWord_outside _ _ (by omega), changes.memory]
  kept register kept := by
    rw [store_registers, changesLater.registers _ kept, store_registers, changes.registers _ kept]
  accesses := by
    rw [store_accesses, changesLater.accesses, store_accesses, changes.accesses, append_assoc]
    rfl

end MachineState

def Place.shifted (extra : Int) : Place → Place
  | .direct base offset => .direct base (offset + extra)
  | .indexed base index scale offset => .indexed base index scale (offset + extra)
  | .absolute fixed => .absolute (fixed + extra)

theorem Place.scale?_shifted (place : Place) (extra : Int) :
    (place.shifted extra).scale? = place.scale? := by
  cases place <;> rfl

theorem Place.address_shifted (place : Place) (state : MachineState 64) :
    (place.shifted 8).address state = place.address state + 8 := by
  cases place <;> simp [shifted, address, BitVec.ofInt_add, BitVec.add_assoc]

section Pairs

variable {config : Configuration} {file : RegisterFile} {scratch : List MachineRegister}
  {memory next : Memory} {place : Place} {effects nextEffects : List Effect}
  {mode nextMode : Expression} {node first second : Node} {firstText secondText : String}
  {firstRegister secondRegister : MachineRegister}

theorem Memory.Stands.shifted {extra : Int} (stands : memory.Stands config file place)
    (ran : memory.shifted config extra = .ok next) :
    next.Stands config file (place.shifted extra) := by
  cases stands with
  | direct baseSpells evaluated =>
    simp only [Memory.shifted, evaluated, Checked.ok_bind] at ran
    cases ran
    exact .direct baseSpells rfl
  | indexed baseSpells indexSpells scaled evaluated =>
    simp only [Memory.shifted, evaluated, Checked.ok_bind] at ran
    cases ran
    exact .indexed baseSpells indexSpells scaled rfl
  | absolute evaluated =>
    simp only [Memory.shifted, evaluated, Checked.ok_bind] at ran
    cases ran
    exact .absolute rfl

theorem Expression.value?_store {bits : Nat} {isTaken : MachineRegister → Bool}
    (state : MachineState bits) (address word : BitVec bits) (expression : Expression) :
    expression.value? file isTaken (state.store address word) =
      expression.value? file isTaken state := by
  induction expression <;> simp_all [value?]

/-! ### Two accesses -/

/-- The address of the second word of a pair whose words are loaded one after the other. -/
def Place.addressAfter (place : Place) (loaded : MachineRegister) (state : MachineState 64) :
    BitVec 64 :=
  place.address (state.set loaded (state.memory.word (place.address state))) + 8

theorem Place.addressAfter_eq {loaded : MachineRegister} (apart : loaded ∉ place.registers)
    (state : MachineState 64) : place.addressAfter loaded state = place.address state + 8 := by
  rw [addressAfter, address_congr fun register mem =>
    Function.update_of_ne (ne_of_mem_of_not_mem mem apart) _ _]

theorem Forms.loadBoth (forms : Forms 64 file scratch place effects mode)
    (nextForms : Forms 64 file scratch (place.shifted 8) nextEffects nextMode)
    (stands : memory.Stands config file place) (inside : scratch ⊆ file.scratch)
    (firstSpells : first.Spells config file file.moves firstText firstRegister)
    (secondSpells : second.Spells config file file.moves secondText secondRegister)
    (apart : firstRegister ≠ secondRegister) (state : MachineState 64) : ∃ after,
      run file (effects ++ .load firstText mode :: (nextEffects ++ [.load secondText nextMode]))
        state = some after ∧
      state.LoadsPair file.scratch firstRegister secondRegister (place.address state)
        (place.addressAfter firstRegister state) after := by
  obtain ⟨middle, runs, changes, formed⟩ := forms state
  obtain ⟨later, runsLater, changesLater, formedLater⟩ :=
    nextForms (middle.load firstRegister (place.address state))
  have moved : place.address (middle.load firstRegister (place.address state)) =
      place.address (state.set firstRegister (state.memory.word (place.address state))) := by
    refine Place.address_congr fun register mem => ?_
    have kept := changes.registers register fun isChanged =>
      stands.spare register mem (inside isChanged)
    rw [MachineState.load_registers, MachineState.set_registers, changes.memory,
      Function.update_apply, Function.update_apply, kept]
  rw [Place.address_shifted, moved] at formedLater
  refine ⟨_, ?_, (changes.mono inside).loadsPair (changesLater.mono inside) apart firstSpells.spare⟩
  rw [run_append _ runs, run_cons, Effect.step_load firstSpells.named formed, Option.bind_some,
    run_append _ runsLater, run_cons, Effect.step_load secondSpells.named formedLater]
  rfl

theorem Forms.storeBoth (forms : Forms 64 file scratch place effects mode)
    (nextForms : Forms 64 file scratch (place.shifted 8) nextEffects nextMode)
    (stands : memory.Stands config file place) (inside : scratch ⊆ file.scratch)
    (firstSpells : first.Spells config file file.moves firstText firstRegister)
    (secondSpells : second.Spells config file file.moves secondText secondRegister)
    (state : MachineState 64) : ∃ after, run file (effects ++ .store (.register firstText) mode ::
        (nextEffects ++ [.store (.register secondText) nextMode])) state = some after ∧
      state.StoresPair file.scratch (place.address state) (state.registers firstRegister)
        (state.registers secondRegister) after := by
  obtain ⟨middle, runs, changes, formed⟩ := forms state
  obtain ⟨later, runsLater, changesLater, formedLater⟩ :=
    nextForms (middle.store (place.address state) (state.registers firstRegister))
  have changed := changes.mono inside
  have changedLater := changesLater.mono inside
  have firstKept := changed.registers firstRegister firstSpells.spare
  have secondKept := (changedLater.registers secondRegister secondSpells.spare).trans
    (changed.registers secondRegister secondSpells.spare)
  rw [Place.address_shifted, show place.address (middle.store _ _) = place.address middle from rfl,
    stands.address_eq changes inside] at formedLater
  refine ⟨_, ?_, changed.storesPair changedLater⟩
  rw [run_append _ runs, run_cons,
    Effect.step_store (Expression.value?_register firstSpells.named middle) formed, firstKept,
    Option.bind_some, run_append _ runsLater, run_cons,
    Effect.step_store (Expression.value?_register secondSpells.named later) formedLater, secondKept]
  rfl

theorem Forms.loadPair (forms : Forms 64 file scratch place effects mode)
    (inside : scratch ⊆ file.scratch)
    (firstSpells : first.Spells config file file.moves firstText firstRegister)
    (secondSpells : second.Spells config file file.moves secondText secondRegister)
    (apart : firstRegister ≠ secondRegister) (state : MachineState 64) :
    ∃ after, run file (effects ++ [.loadPair firstText secondText mode 8]) state = some after ∧
      state.LoadsPair file.scratch firstRegister secondRegister (place.address state)
        (place.address state + 8) after := by
  obtain ⟨middle, runs, changes, formed⟩ := forms state
  refine ⟨_, ?_, (changes.mono inside).loadsPair (.refl _ _) apart firstSpells.spare⟩
  rw [run_append _ runs, run_cons, Effect.step, firstSpells.named, secondSpells.named, formed]
  rfl

theorem Forms.storePair (forms : Forms 64 file scratch place effects mode)
    (inside : scratch ⊆ file.scratch)
    (firstSpells : first.Spells config file file.moves firstText firstRegister)
    (secondSpells : second.Spells config file file.moves secondText secondRegister)
    (state : MachineState 64) : ∃ after, run file (effects ++ [.store (.register firstText) mode,
        .store (.register secondText) (mode.plus 8)]) state = some after ∧
      state.StoresPair file.scratch (place.address state) (state.registers firstRegister)
        (state.registers secondRegister) after := by
  obtain ⟨middle, runs, changes, formed⟩ := forms state
  have changed := changes.mono inside
  have firstKept := changed.registers firstRegister firstSpells.spare
  have secondKept := changed.registers secondRegister secondSpells.spare
  have formedNext : (mode.plus 8).integerValue? file
      (middle.store (place.address state) (state.registers firstRegister)) =
        some (place.address state + 8) := by
    rw [Expression.integerValue?, Expression.value?_store]
    exact Expression.value?_result formed rfl
  refine ⟨_, ?_, changed.storesPair (.refl _ _)⟩
  rw [run_append _ runs, run_cons,
    Effect.step_store (Expression.value?_register firstSpells.named middle) formed, firstKept,
    Option.bind_some, run_cons,
    Effect.step_store (Expression.value?_register secondSpells.named _) formedNext,
    MachineState.store_registers, secondKept]
  rfl

/-! ### Machines -/

structure AccessesPair {ι : Type} (wrap : ι → MachineInstruction) (file : RegisterFile)
    (config : Configuration) (stmt : Statement) (node : Node) (place : Place)
    (next : MachineRegister → MachineState 64 → BitVec 64) (loaded stored : Checked (List ι)) :
    Prop where
  loads : ∀ first second firstText secondText firstRegister secondRegister,
    stmt.operands = [node, first, second] →
    first.Spells config file file.moves firstText firstRegister →
    second.Spells config file file.moves secondText secondRegister →
    firstRegister ≠ secondRegister → Accomplishes wrap file
        (fun state => state.LoadsPair file.scratch firstRegister secondRegister
          (place.address state) (next firstRegister state)) loaded
  stores : ∀ first second firstText secondText firstRegister secondRegister,
    stmt.operands = [first, second, node] →
    first.Spells config file file.moves firstText firstRegister →
    second.Spells config file file.moves secondText secondRegister → Accomplishes wrap file
        (fun state => state.StoresPair file.scratch (place.address state)
          (state.registers firstRegister) (state.registers secondRegister)) stored

variable {stmt : Statement}

theorem AccessesPair.leads {ι : Type} {wrap : ι → MachineInstruction}
    {next : MachineRegister → MachineState 64 → BitVec 64} {loaded stored : Checked (List ι)}
    (accesses : AccessesPair wrap file config stmt node place next loaded stored) {opcode : Opcode}
    (lowersLoad : opcode = .loadpairq → Assembly.LowersTo config stmt opcode wrap loaded)
    (lowersStore : opcode = .storepairq → Assembly.LowersTo config stmt opcode wrap stored)
    (firstSpells : first.Spells config file file.moves firstText firstRegister)
    (secondSpells : second.Spells config file file.moves secondText secondRegister)
    {table tableAfter : SymbolTable} {code : Assembly.Code}
    (ran : (Assembly.lower config stmt.toNode).perform table = (.ok code, tableAfter)) :
    (opcode = .loadpairq → stmt.operands = [node, first, second] → firstRegister ≠ secondRegister →
        code.Leads file fun state => state.LoadsPair file.scratch firstRegister secondRegister
          (place.address state) (next firstRegister state)) ∧
    (opcode = .storepairq → stmt.operands = [first, second, node] →
      code.Leads file fun state => state.StoresPair file.scratch (place.address state)
        (state.registers firstRegister) (state.registers secondRegister)) := by
  refine ⟨fun isLoad operands apart => ?_, fun isStore operands => ?_⟩
  · exact (accesses.loads _ _ _ _ _ _ operands firstSpells secondSpells apart).lower
      (lowersLoad isLoad) ran
  · exact (accesses.stores _ _ _ _ _ _ operands firstSpells secondSpells).lower
      (lowersStore isStore) ran

theorem Arm64.accessesPair (isMemory : Memory.ofNode? node = some memory)
    (stands : memory.Stands config registerFile place) :
    AccessesPair .arm64 registerFile config stmt node place
      (fun _ state => place.address state + 8) (loadPairStatement config stmt)
      (storePairStatement config stmt) where
  loads _ _ _ _ _ _ operands firstSpells secondSpells apart lines ran := by
    simp only [loadPairStatement, operands, memoryOperand, Statement.memory_eq isMemory,
      firstSpells.operand, secondSpells.operand, Checked.ok_bind] at ran
    obtain ⟨⟨forming, mode⟩, formed, rest⟩ := Checked.bind_ok.mp ran
    cases rest
    rw [flatMap_append]
    exact (forms_formAddress stands formed).loadPair addressScratch_inside firstSpells secondSpells
      apart
  stores _ _ _ _ _ _ operands firstSpells secondSpells lines ran := by
    simp only [storePairStatement, operands, memoryOperand, Statement.memory_eq isMemory,
      firstSpells.operand, secondSpells.operand, Checked.ok_bind] at ran
    obtain ⟨⟨forming, mode⟩, formed, rest⟩ := Checked.bind_ok.mp ran
    cases rest
    rw [flatMap_append]
    exact (forms_formAddress stands formed).storePair addressScratch_inside firstSpells secondSpells

theorem X86.accessesPair (isMemory : Memory.ofNode? node = some memory)
    (stands : memory.Stands config registerFile place) (isNumber : place.scale? ≠ some .truth) :
    AccessesPair .x86 registerFile config stmt node place place.addressAfter
      (loadPairStatement config stmt) (storePairStatement config stmt) where
  loads _ _ _ _ _ _ operands firstSpells secondSpells apart lines ran := by
    simp only [loadPairStatement, operands, Statement.memory_eq isMemory, firstSpells.operand,
      secondSpells.operand, Checked.ok_bind] at ran
    obtain ⟨mode, formed, rest⟩ := Checked.bind_ok.mp ran
    obtain ⟨next, shifted, rest⟩ := Checked.bind_ok.mp rest
    obtain ⟨nextMode, nextFormed, rest⟩ := Checked.bind_ok.mp rest
    cases rest
    rw [← place.scale?_shifted 8] at isNumber
    exact (forms_addressOf stands (place.scale?_shifted 8 ▸ isNumber) formed).loadBoth
      (forms_addressOf (stands.shifted shifted) isNumber nextFormed) stands (nil_subset _)
      firstSpells secondSpells apart
  stores _ _ _ _ _ _ operands firstSpells secondSpells lines ran := by
    simp only [storePairStatement, operands, Statement.memory_eq isMemory, firstSpells.operand,
      secondSpells.operand, Checked.ok_bind] at ran
    obtain ⟨mode, formed, rest⟩ := Checked.bind_ok.mp ran
    obtain ⟨next, shifted, rest⟩ := Checked.bind_ok.mp rest
    obtain ⟨nextMode, nextFormed, rest⟩ := Checked.bind_ok.mp rest
    cases rest
    rw [← place.scale?_shifted 8] at isNumber
    exact (forms_addressOf stands (place.scale?_shifted 8 ▸ isNumber) formed).storeBoth
      (forms_addressOf (stands.shifted shifted) isNumber nextFormed) stands (nil_subset _)
      firstSpells secondSpells

theorem Riscv.accessesPair (isMemory : Memory.ofNode? node = some memory)
    (stands : memory.Stands config registerFile place) :
    AccessesPair .riscv registerFile config stmt node place place.addressAfter
      (loadPairStatement config stmt) (storePairStatement config stmt) where
  loads _ _ _ _ _ _ operands firstSpells secondSpells apart lines ran := by
    simp only [loadPairStatement, operands, Statement.memory_eq isMemory, firstSpells.operand,
      secondSpells.operand, Checked.ok_bind] at ran
    obtain ⟨⟨forming, mode⟩, formed, rest⟩ := Checked.bind_ok.mp ran
    obtain ⟨next, shifted, rest⟩ := Checked.bind_ok.mp rest
    obtain ⟨⟨nextForming, nextMode⟩, nextFormed, rest⟩ := Checked.bind_ok.mp rest
    cases rest
    rw [flatMap_append, flatMap_cons, flatMap_append]
    exact (forms_formAddress stands formed).loadBoth
      (forms_formAddress (stands.shifted shifted) nextFormed) stands scratch_inside firstSpells
      secondSpells apart
  stores _ _ _ _ _ _ operands firstSpells secondSpells lines ran := by
    simp only [storePairStatement, operands, Statement.memory_eq isMemory, firstSpells.operand,
      secondSpells.operand, Checked.ok_bind] at ran
    obtain ⟨⟨forming, mode⟩, formed, rest⟩ := Checked.bind_ok.mp ran
    obtain ⟨next, shifted, rest⟩ := Checked.bind_ok.mp rest
    obtain ⟨⟨nextForming, nextMode⟩, nextFormed, rest⟩ := Checked.bind_ok.mp rest
    cases rest
    rw [flatMap_append, flatMap_cons, flatMap_append]
    exact (forms_formAddress stands formed).storeBoth
      (forms_formAddress (stands.shifted shifted) nextFormed) stands scratch_inside firstSpells
      secondSpells

end Pairs

/-! ### Statements -/

def Architecture.nextAddress (architecture : Architecture) (place : Place)
    (loaded : MachineRegister) (state : MachineState 64) : BitVec 64 :=
  match architecture with
  | .arm64 | .arm64e => place.address state + 8
  | _ => place.addressAfter loaded state

/-- The two words of a pair are accessed at the place of the memory operand and eight bytes after
it, with one exception: where the words are loaded one after the other and the first one replaces a
register of the address, the second one is loaded from where that register then leads. -/
theorem Assembly.pair_accessed {config : Configuration}
    (own : config.SpellsOwnRegisters)
    (assembles : config.architecture.emitsHostCode = false) (statement : Statement)
    (wide : config.architecture.wordBits = 64) {opcode : Opcode}
    (named : statement.opcode = opcode.name) {node first second : Node} {memory : Memory} {place : Place}
    (isMemory : Memory.ofNode? node = some memory)
    (stands : memory.place? config = some place)
    (isNumber : config.architecture = .x86 → place.scale? ≠ some .truth)
    {firstRegister secondRegister : MachineRegister}
    (isFirst : first.machineRegister? config config.architecture.registerFile.moves =
      some firstRegister)
    (isSecond : second.machineRegister? config
      config.architecture.registerFile.moves = some secondRegister)
    {table tableAfter : SymbolTable} {code : Code}
    (succeeded : (lower config statement.toNode).perform table = (.ok code, tableAfter)) :
    (opcode = .loadpairq → statement.operands = [node, first, second] →
      firstRegister ≠ secondRegister →
        code.Leads config.architecture.registerFile fun state =>
          state.LoadsPair config.architecture.registerFile.scratch firstRegister
            secondRegister (place.address state)
            (config.architecture.nextAddress place firstRegister state)) ∧
    (opcode = .storepairq → statement.operands = [first, second, node] →
      code.Leads config.architecture.registerFile fun state =>
        state.StoresPair config.architecture.registerFile.scratch (place.address state)
          (state.registers firstRegister) (state.registers secondRegister)) ∧
    (config.architecture = .arm64 ∨ config.architecture = .arm64e ∨
        firstRegister ∉ place.registers →
      ∀ state, config.architecture.nextAddress place firstRegister state =
        place.address state + 8) := by
  have parts := memory.stands_of_place? own stands
  obtain ⟨firstText, firstSpells⟩ := first.exists_spells own isFirst
  obtain ⟨secondText, secondSpells⟩ := second.exists_spells own isSecond
  obtain ⟨architecture, features, names, layout⟩ := config
  refine and_assoc.mp ⟨?_, ?_⟩
  · cases architecture with
    | arm64 | arm64e =>
      exact (Arm64.accessesPair isMemory parts).leads (fun isLoad => lowersTo named (isLoad ▸ rfl))
        (fun isStore => lowersTo named (isStore ▸ rfl)) firstSpells secondSpells succeeded
    | x86 =>
      exact (X86.accessesPair isMemory parts (isNumber rfl)).leads
        (fun isLoad => lowersTo named (isLoad ▸ rfl))
        (fun isStore => lowersTo named (isStore ▸ rfl)) firstSpells secondSpells succeeded
    | riscv =>
      exact (Riscv.accessesPair isMemory parts).leads (fun isLoad => lowersTo named (isLoad ▸ rfl))
        (fun isStore => lowersTo named (isStore ▸ rfl)) firstSpells secondSpells succeeded
    | armv7 => cases wide
    | loop => cases assembles
  · rintro (rfl | rfl | apart) state
    · rfl
    · rfl
    · cases architecture with
      | arm64 | arm64e => rfl
      | _ => exact Place.addressAfter_eq apart state

/-- A pair whose first word replaces the base of the address. -/
def overlappingPair : Statement :=
  ⟨.nowhere, "loadpairq", [.address .nowhere (.register .nowhere .general "t0")
    (.immediate .nowhere 0), .register .nowhere .general "t0", .register .nowhere .general "t1"],
    .null⟩

/-- The second word is loaded from behind the address that the first word is. -/
theorem Assembly.pair_accessed_overlapping :
    ∃ code, (lower (.ofArchitecture .x86) overlappingPair.toNode).perform {} = (.ok code, {}) ∧
      code.Leads X86.registerFile fun state : MachineState 64 =>
        state.LoadsPair [.integer 11] (.integer 0) (.integer 6)
          ((Place.direct (.integer 0) 0).address state)
          ((Place.direct (.integer 0) 0).addressAfter (.integer 0) state) := by
  have scratch : X86.registerFile.scratch = [.integer 11] := by decide +kernel
  rw [← scratch]
  obtain ⟨code, succeeded⟩ :
      ∃ code, (lower (.ofArchitecture .x86) overlappingPair.toNode).perform {} = (.ok code, {}) :=
    ⟨_, rfl⟩
  refine ⟨code, succeeded, ?_⟩
  refine (pair_accessed (Configuration.ofArchitecture_spellsOwnRegisters .x86) rfl overlappingPair
    rfl (rfl : _ = Opcode.loadpairq.name) rfl (?_ : _ = some (Place.direct (.integer 0) 0)) nofun
    (?_ : _ = some (.integer 0)) (?_ : _ = some (.integer 6)) succeeded).1 rfl rfl ?_
  all_goals decide +kernel

/-- Memory with a pair of words at its start, of which the first one leads elsewhere. -/
def overlappingMemory : ByteMemory 64 := fun place =>
  if place = 0 then 16 else if place = 8 then 1 else 0

/-- The second word of the pair is not the one that is loaded. -/
theorem Assembly.overlappingPair_misses :
    ∃ lines, (lower (.ofArchitecture .x86) overlappingPair.toNode).perform {} =
        (.ok (.statements lines), {}) ∧
      lines.map Line.text = ["\"\\tmovq 0(%rax), %rax\\n\"", "\"\\tmovq 8(%rax), %rsi\\n\""] ∧
      (execute X86.registerFile lines ⟨fun _ => 0, overlappingMemory, [], false⟩).map
        (fun after => after.registers (.integer 6)) = some 0 ∧
      overlappingMemory.word 8 = 1 :=
  ⟨_, rfl, by decide +kernel, by decide +kernel, by decide +kernel⟩

end MacroAssembler
