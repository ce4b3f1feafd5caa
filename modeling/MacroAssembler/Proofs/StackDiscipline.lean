/-
This module says that a pop gives registers the values back that they had at the push before.

A push takes some bytes below the stack pointer and puts its registers there; a pop of the same
registers in reverse order finds them at the same places. The machines lay out two registers
differently: in one instruction, in two, or in the words of one slot. What lies between a push and
its pop is a program of the same kind, together with changes that leave the stack pointer alone and
the part of the stack that the program uses. By induction on the nesting, it leaves the bytes of the
push as they are.
-/
import MacroAssembler.Proofs.AccessedPairs

namespace MacroAssembler

open ByteMemory List

variable {bits : Nat}

namespace ByteMemory

variable {address place : BitVec bits} {size : Nat}

theorem distance_add_left (behind : size ≤ distance address place) :
    distance (address + BitVec.ofNat bits size) place = distance address place - size := by
  have isSize : (BitVec.ofNat bits size).toNat = size :=
    Nat.mod_eq_of_lt (Nat.lt_of_le_of_lt behind (BitVec.isLt _))
  unfold distance at behind ⊢
  rw [show place - (address + BitVec.ofNat bits size) = place - address - BitVec.ofNat bits size by
    grind, BitVec.toNat_sub_of_le (BitVec.le_def.mpr (Nat.le_trans (Nat.le_of_eq isSize) behind)),
    isSize]

theorem distance_sub_left (room : distance address place + size < 2 ^ bits) :
    distance (address - BitVec.ofNat bits size) place = distance address place + size := by
  have isSize : (BitVec.ofNat bits size).toNat = size := Nat.mod_eq_of_lt (by omega)
  unfold distance at room ⊢
  rw [show place - (address - BitVec.ofNat bits size) = place - address + BitVec.ofNat bits size by
    grind, BitVec.toNat_add_of_lt (by omega), isSize]

/-- Of neighbouring words, either may be written first. -/
theorem withWord_comm {half : Nat} (whole : half = bits / 8) (memory : ByteMemory bits)
    (address first second : BitVec bits) :
    (memory.withWord address first).withWord (address + BitVec.ofNat bits half) second =
      (memory.withWord (address + BitVec.ofNat bits half) second).withWord address first := by
  funext place
  by_cases here : distance address place < bits / 8
  · have notThere : ¬distance (address + BitVec.ofNat bits half) place < bits / 8 := by
      intro there
      have isPlace : place = address + BitVec.ofNat bits
          (half + distance (address + BitVec.ofNat bits half) place) := by
        rw [BitVec.ofNat_add, distance, BitVec.ofNat_toNat, BitVec.setWidth_eq]
        grind
      have bound : bits < 2 ^ bits := Nat.lt_two_pow_self
      rw [isPlace, distance_add _ (by omega)] at here
      omega
    simp [withWord, here, notThere]
  · simp [withWord, here]

end ByteMemory

/-! ### Programs -/

def Architecture.stackPointer : Architecture → MachineRegister
  | .arm64 | .arm64e => .integer 31
  | .x86 => .integer 4
  | .riscv => .integer 2
  | .armv7 => .integer 13
  | .loop => .integer 0

theorem Architecture.whole_wordBits (architecture : Architecture) : 8 ∣ architecture.wordBits := by
  cases architecture <;> decide

/-- Whether a state has the stack pointer of an earlier one and the same memory from there up to an
address. -/
structure MachineState.KeepsStack (stackPointer : MachineRegister) (top : BitVec bits)
    (before after : MachineState bits) : Prop where
  pointer : after.registers stackPointer = before.registers stackPointer
  memory : ∀ place, distance (before.registers stackPointer) place <
    distance (before.registers stackPointer) top → after.memory place = before.memory place

theorem MachineState.KeepsStack.trans {stackPointer : MachineRegister} {top : BitVec bits}
    {before middle after : MachineState bits} (first : KeepsStack stackPointer top before middle)
    (second : KeepsStack stackPointer top middle after) :
    KeepsStack stackPointer top before after where
  pointer := second.pointer.trans first.pointer
  memory place inside := by
    rw [second.memory place (by rwa [first.pointer]), first.memory place inside]

/-- A program that saves registers on the stack while other parts of it run. -/
inductive StackProgram (bits : Nat)
  | done
  | change (step : MachineState bits → MachineState bits) (rest : StackProgram bits)
  | bracket (registers : List MachineRegister) (push pop : Statement)
      (inner rest : StackProgram bits)

def Statement.execute (config : Configuration) (table : SymbolTable) (stmt : Statement)
    (state : MachineState config.architecture.wordBits) :
    Option (MachineState config.architecture.wordBits) :=
  match (Assembly.lower config stmt.toNode).perform table with
  | (.ok (.statements lines), _) =>
    MacroAssembler.execute config.architecture.registerFile lines state
  | _ => none

/-- The registers of a push, the state before it, and the state after the pop for it. -/
abbrev Bracket (bits : Nat) := List MachineRegister × MachineState bits × MachineState bits

namespace StackProgram

def depth : StackProgram bits → Nat
  | done => 0
  | change _ rest => rest.depth
  | bracket _ _ _ inner rest => max (inner.depth + 1) rest.depth

variable {config : Configuration}

/-- Run a program, and collect the states around each of its brackets. -/
def run (config : Configuration) (table : SymbolTable) :
    StackProgram config.architecture.wordBits →
    MachineState config.architecture.wordBits →
    Option (MachineState config.architecture.wordBits × List (Bracket config.architecture.wordBits))
  | done, state => some (state, [])
  | change step rest, state => rest.run config table (step state)
  | bracket registers push pop inner rest, state => do
    let pushed ← push.execute config table state
    let (returned, within) ← inner.run config table pushed
    let popped ← pop.execute config table returned
    let (after, later) ← rest.run config table popped
    return (after, within ++ (registers, state, popped) :: later)

abbrev StandsFor (config : Configuration) (node : Node) (register : MachineRegister) : Prop :=
  node.machineRegister? config MachineRegister.isInteger = some register

/-- Whether statements push one or two different integer registers beside the stack pointer and pop
them in reverse order. -/
structure Matches (config : Configuration) (registers : List MachineRegister)
    (push pop : Statement) : Prop where
  pushes : push.opcode = Opcode.push.name
  pops : pop.opcode = Opcode.pop.name
  pushed : List.Forall₂ (StandsFor config) push.operands registers
  popped : List.Forall₂ (StandsFor config) pop.operands registers.reverse
  few : registers.length = 1 ∨ registers.length = 2
  distinct : registers.Nodup
  others : config.architecture.stackPointer ∉ registers

/-- Whether pushes and pops match and changes keep the stack up to an address. -/
def IsBalanced (config : Configuration)
    (top : BitVec config.architecture.wordBits) :
    StackProgram config.architecture.wordBits → Prop
  | done => True
  | change step rest =>
    (∀ state, MachineState.KeepsStack config.architecture.stackPointer top state (step state)) ∧
      rest.IsBalanced config top
  | bracket registers push pop inner rest =>
    Matches config registers push pop ∧ inner.IsBalanced config top ∧ rest.IsBalanced config top

end StackProgram

/-! ### Frames -/

/-- The memory after registers were stored in slots behind an address. -/
def MachineState.saved (state : MachineState bits) (address : BitVec bits)
    (slots : List (MachineRegister × Nat)) : ByteMemory bits :=
  slots.foldr (fun slot memory =>
    memory.withWord (address + BitVec.ofNat bits slot.2) (state.registers slot.1)) state.memory

/-- Whether effects put registers into slots below the stack pointer, and other effects take them
from there again. -/
structure StackFrame (bits : Nat) (file : RegisterFile) (stackPointer : MachineRegister)
    (slots : List (MachineRegister × Nat)) (size : Nat) (pushing popping : List Effect) :
    Prop where
  pushes : ∀ state : MachineState bits, ∃ after, run file pushing state = some after ∧
    after.registers stackPointer = state.registers stackPointer - BitVec.ofNat bits size ∧
    after.memory = state.saved (after.registers stackPointer) slots
  pops : ∀ state : MachineState bits, ∃ after, run file popping state = some after ∧
    after.registers stackPointer = state.registers stackPointer + BitVec.ofNat bits size ∧
    after.memory = state.memory ∧
    ∀ slot ∈ slots, after.registers slot.1 =
      state.memory.word (state.registers stackPointer + BitVec.ofNat bits slot.2)
  apart : slots.Pairwise fun slot later => slot.2 + bits / 8 ≤ later.2
  fits : ∀ slot ∈ slots, slot.2 + bits / 8 ≤ size
  small : size ≤ 16

section Slots

variable {state : MachineState bits} {address place : BitVec bits}
  {slots : List (MachineRegister × Nat)} {size : Nat}

theorem MachineState.saved_outside (fits : ∀ slot ∈ slots, slot.2 + bits / 8 ≤ size)
    (outside : size ≤ distance address place) :
    state.saved address slots place = state.memory place := by
  induction slots with
  | nil => rfl
  | cons slot rest ih =>
    have fitsHere := fits slot mem_cons_self
    rw [saved, foldr_cons, withWord_outside, ← saved,
      ih fun other mem => fits other (mem_cons_of_mem _ mem)]
    rw [distance_add_left (by omega)]
    omega

theorem MachineState.word_saved (whole : 8 ∣ bits)
    (apart : slots.Pairwise fun slot later => slot.2 + bits / 8 ≤ later.2)
    (fits : ∀ slot ∈ slots, slot.2 + bits / 8 ≤ size) (room : size < 2 ^ bits) :
    ∀ slot ∈ slots, (state.saved address slots).word (address + BitVec.ofNat bits slot.2) =
      state.registers slot.1 := by
  induction slots with
  | nil => nofun
  | cons slot rest ih =>
    obtain ⟨apartHere, apart⟩ := pairwise_cons.mp apart
    obtain ⟨-, fits⟩ := forall_mem_cons.mp fits
    refine forall_mem_cons.mpr ⟨word_withWord whole .., fun other mem => ?_⟩
    rw [saved, foldr_cons, word_withWord_of_apart whole, ← saved, ih apart fits other mem]
    intro number inside
    have behind := apartHere other mem
    have fitsOther := fits other mem
    have isBehind : distance address
        (address + BitVec.ofNat bits other.2 + BitVec.ofNat bits number) = other.2 + number := by
      rw [BitVec.add_assoc, ← BitVec.ofNat_add, distance_add _ (by omega)]
    rw [distance_add_left (by omega), isBehind]
    omega

variable {file : RegisterFile} {stackPointer : MachineRegister} {pushing popping : List Effect}

/-- Where the stack has room, a push and a pop keep what was on it before and restore registers if
what lies between them keeps the stack. -/
theorem StackFrame.exists_push (frame : StackFrame bits file stackPointer slots size pushing popping)
    (whole : 8 ∣ bits) (state : MachineState bits) (top : BitVec bits)
    (room : distance (state.registers stackPointer) top + size < 2 ^ bits) :
    ∃ pushed, run file pushing state = some pushed ∧ distance (pushed.registers stackPointer) top =
        distance (state.registers stackPointer) top + size ∧
      ∀ returned, pushed.KeepsStack stackPointer top returned →
        ∃ popped, run file popping returned = some popped ∧
          state.KeepsStack stackPointer top popped ∧
          ∀ slot ∈ slots, popped.registers slot.1 = state.registers slot.1 := by
  obtain ⟨pushed, pushes, lowered, saved⟩ := frame.pushes state
  have deeper (place : BitVec bits)
      (inside : distance (state.registers stackPointer) place + size < 2 ^ bits) :
      distance (pushed.registers stackPointer) place =
        distance (state.registers stackPointer) place + size := by
    rw [lowered, distance_sub_left inside]
  have deeperTop := deeper top room
  refine ⟨pushed, pushes, deeperTop, fun returned keeps => ?_⟩
  obtain ⟨popped, pops, raised, same, loaded⟩ := frame.pops returned
  refine ⟨popped, pops, ⟨?_, fun place inside => ?_⟩, fun slot mem => ?_⟩
  · rw [raised, keeps.pointer, lowered, BitVec.sub_add_cancel]
  · have deeperHere := deeper place (by omega)
    rw [same, keeps.memory place (by omega), saved,
      MachineState.saved_outside frame.fits (by omega)]
  · have fits := frame.fits slot mem
    rw [loaded slot mem, keeps.pointer,
      ← MachineState.word_saved whole frame.apart frame.fits (by omega) slot mem, ← saved]
    refine word_congr whole fun number inside => keeps.memory _ ?_
    rw [BitVec.add_assoc, ← BitVec.ofNat_add, distance_add _ (by omega)]
    omega

end Slots

/-! ### Layouts -/

/-- Whether texts name a register beside the stack pointer, in a push and in a pop. -/
structure NamesSaved (file : RegisterFile) (stackPointer : MachineRegister) (source target : String)
    (register : MachineRegister) : Prop where
  pushed : file.taken? file.moves source = some register
  popped : file.taken? file.moves target = some register
  other : register ≠ stackPointer

section Layouts

variable {file : RegisterFile} {stackPointer : MachineRegister} {pointer : String}
  {source target otherSource otherTarget : String} {register other : MachineRegister}
  {size half : Nat} (stack : file.integer? pointer = some stackPointer)
  (saved : NamesSaved file stackPointer source target register)
  (otherSaved : NamesSaved file stackPointer otherSource otherTarget other)
  (apart : register ≠ other) (small : size ≤ 16)

attribute [local simp] Effect.push Effect.pop Effect.step Expression.value? Expression.plus
  Arithmetic.compute MachineState.saved BitVec.add_sub_cancel BitVec.sub_add_cancel

theorem RegisterFile.moved {name : String} (named : file.integer? name = some register) :
    file.taken? file.moves name = some register := by
  obtain ⟨found, isInteger⟩ := Option.filter_eq_some_iff.mp named
  exact Option.filter_eq_some_iff.mpr ⟨found, by simp [moves, isInteger]⟩

theorem add_ofInt_neg (word : BitVec bits) (size : Nat) :
    word + BitVec.ofInt bits (-size) = word - BitVec.ofNat bits size := by
  rw [← BitVec.neg_ofNat_eq_ofInt_neg, BitVec.sub_eq_add_neg]

theorem sub_ofNat_twice (twice : size = half + half) (word : BitVec bits) :
    word - BitVec.ofNat bits size = word - BitVec.ofNat bits half - BitVec.ofNat bits half := by
  rw [twice, BitVec.ofNat_add]
  grind

theorem add_ofNat_twice (twice : size = half + half) (word : BitVec bits) :
    word + BitVec.ofNat bits size = word + BitVec.ofNat bits half + BitVec.ofNat bits half := by
  rw [twice, BitVec.ofNat_add, BitVec.add_assoc]

include stack saved small

theorem frame_push (fits : bits / 8 ≤ size) :
    StackFrame bits file stackPointer [(register, 0)] size (Effect.push pointer size source)
      (Effect.pop pointer size target) where
  pushes state := by simp [stack, saved.pushed, add_ofInt_neg]
  pops state := by simp [stack, saved.popped, saved.other.symm, add_ofInt_neg]
  apart := pairwise_singleton ..
  fits := by simpa using fits
  small := small

theorem frame_slot (fits : bits / 8 ≤ size) : StackFrame bits file stackPointer [(register, 0)] size
      [.assign pointer (.plus (.register pointer) (-size)),
        .store (.register source) (.plus (.register pointer) 0)]
      [.load target (.plus (.register pointer) 0),
        .assign pointer (.plus (.register pointer) size)] where
  pushes state := by simp [stack, saved.pushed, saved.other, add_ofInt_neg]
  pops state := by simp [stack, saved.popped, saved.other, saved.other.symm]
  apart := pairwise_singleton ..
  fits := by simpa using fits
  small := small

variable (whole : half = bits / 8) (twice : size = half + half)

include otherSaved apart whole twice

theorem frame_pushes : StackFrame bits file stackPointer [(other, 0), (register, half)] size
      (Effect.push pointer half source ++ Effect.push pointer half otherSource)
      (Effect.pop pointer half otherTarget ++ Effect.pop pointer half target) where
  pushes state := by
    simp [stack, saved.pushed, otherSaved.pushed, otherSaved.other, add_ofInt_neg,
      sub_ofNat_twice twice]
  pops state := by
    simp [stack, saved.popped, otherSaved.popped, saved.other.symm, otherSaved.other,
      otherSaved.other.symm, apart.symm, add_ofInt_neg, add_ofNat_twice twice]
  apart := by simp [whole]
  fits := by simp; omega
  small := small

theorem frame_pushPair : StackFrame bits file stackPointer [(register, 0), (other, half)] size
      (.store (.register otherSource) (.plus (.register pointer) (-half)) ::
        Effect.push pointer size source) [.assign pointer (.plus (.register pointer) size),
        .loadPair target otherTarget (.plus (.register pointer) (-size)) half] where
  pushes state := by
    simp [stack, saved.pushed, otherSaved.pushed, add_ofInt_neg, sub_ofNat_twice twice]
  pops state := by
    simp [stack, saved.popped, otherSaved.popped, saved.other.symm, otherSaved.other.symm, apart,
      add_ofInt_neg]
  apart := by simp [whole]
  fits := by simp; omega
  small := small

theorem frame_slots : StackFrame bits file stackPointer [(register, 0), (other, half)] size
      [.assign pointer (.plus (.register pointer) (-size)),
        .store (.register source) (.plus (.register pointer) 0),
        .store (.register otherSource) (.plus (.register pointer) half)]
      [.load target (.plus (.register pointer) 0),
        .load otherTarget (.plus (.register pointer) half),
        .assign pointer (.plus (.register pointer) size)] where
  pushes state := by
    simp [stack, saved.pushed, otherSaved.pushed, saved.other, otherSaved.other, add_ofInt_neg,
      withWord_comm whole]
  pops state := by
    simp [stack, saved.popped, otherSaved.popped, saved.other, saved.other.symm, otherSaved.other,
      otherSaved.other.symm, apart]
  apart := by simp [whole]
  fits := by simp; omega
  small := small

end Layouts

/-- Whether effects push one or two registers and pop them in reverse order. -/
structure StackLayout (bits : Nat) (file : RegisterFile) (stackPointer : MachineRegister)
    (pushing popping : List String → List Effect) : Prop where
  single : ∀ {source target register}, NamesSaved file stackPointer source target register →
    ∃ size, StackFrame bits file stackPointer [(register, 0)] size (pushing [source])
      (popping [target])
  pair : ∀ {source target register otherSource otherTarget other},
    NamesSaved file stackPointer source target register →
    NamesSaved file stackPointer otherSource otherTarget other → register ≠ other →
    ∃ slots size, StackFrame bits file stackPointer slots size (pushing [source, otherSource])
      (popping [otherTarget, target]) ∧ [register, other] ⊆ slots.map Prod.fst

theorem Arm64.stackLayout : StackLayout 64 registerFile (.integer 31)
    (fun names => (pushed names).flatMap Instruction.effects)
    (fun names => (popped names).flatMap Instruction.effects) := by
  have stack : registerFile.integer? "sp" = some (.integer 31) := by decide +kernel
  exact ⟨fun saved => ⟨16, frame_push stack saved (by decide) (by decide)⟩,
    fun saved otherSaved apart => ⟨_, 16, frame_pushPair stack saved otherSaved apart (by decide)
      (rfl : 8 = 64 / 8) rfl, by simp⟩⟩

theorem X86.stackLayout : StackLayout 64 registerFile (.integer 4)
    (fun names => (names.map Instruction.push).flatMap Instruction.effects)
    (fun names => (names.map Instruction.pop).flatMap Instruction.effects) := by
  have stack : registerFile.integer? "%rsp" = some (.integer 4) := by decide +kernel
  exact ⟨fun saved => ⟨8, frame_push stack saved (by decide) (by decide)⟩,
    fun saved otherSaved apart => ⟨_, 16, frame_pushes stack saved otherSaved apart (by decide)
      (rfl : 8 = 64 / 8) rfl, by simp⟩⟩

theorem Riscv.stackLayout : StackLayout 64 registerFile (.integer 2)
    (fun names => (pushed names).flatMap Instruction.effects)
    (fun names => (popped names).flatMap Instruction.effects) := by
  have stack : registerFile.integer? "sp" = some (.integer 2) := by decide +kernel
  exact ⟨fun saved => ⟨16, frame_slot stack saved (by decide) (by decide)⟩,
    fun saved otherSaved apart => ⟨_, 16, frame_slots stack saved otherSaved apart (by decide)
      (rfl : 8 = 64 / 8) rfl, by simp⟩⟩

theorem Armv7.stackLayout : StackLayout 32 registerFile (.integer 13)
    (fun names => (names.map Instruction.push).flatMap Instruction.effects)
    (fun names => (names.map Instruction.pop).flatMap Instruction.effects) := by
  have stack : registerFile.integer? "sp" = some (.integer 13) := by decide +kernel
  exact ⟨fun saved => ⟨4, frame_push stack saved (by decide) (by decide)⟩,
    fun saved otherSaved apart => ⟨_, 8, frame_pushes stack saved otherSaved apart (by decide)
      (rfl : 4 = 32 / 8) rfl, by simp⟩⟩

/-! ### Statements -/

def HasFrame (config : Configuration) (registers : List MachineRegister)
    (push pop : Statement) : Prop :=
  ∃ slots size pushing popping,
    StackFrame config.architecture.wordBits config.architecture.registerFile
      config.architecture.stackPointer slots size pushing popping ∧
    registers ⊆ slots.map Prod.fst ∧
    (∀ table, push.execute config table = run config.architecture.registerFile pushing) ∧
    ∀ table, pop.execute config table = run config.architecture.registerFile popping

section Statements

variable {config : Configuration} {push pop : Statement} {registers : List MachineRegister}
  {ι : Type} {wrap : ι → MachineInstruction} {pushed popped : List String → List ι}

theorem Statement.execute_registers {stmt : Statement} {opcode : Opcode}
    (lowers : Assembly.LowersTo config stmt opcode wrap
      (stmt.registers config pushed)) {operands : List Node} {names : List String}
    (few : operands.length = 1 ∨ operands.length = 2) (written : stmt.operands = operands)
    (spelled : operands.mapM (stmt.register config) = .ok names) (table : SymbolTable) :
    stmt.execute config table = run config.architecture.registerFile
      ((pushed names).flatMap fun instruction => (wrap instruction).effects) := by
  funext state
  rw [Statement.execute, lowers.perform_lower, Statement.registers, written, if_pos few, spelled]
  show run _ (List.flatMap _ _) _ = _
  rw [Line.flatMap_effects_ofInstructions, flatMap_map]

theorem NamesSaved.of_spells {file : RegisterFile} {stackPointer register : MachineRegister}
    {node other : Node} {source target : String}
    (pushed : node.Spells config file MachineRegister.isInteger source register)
    (popped : other.Spells config file MachineRegister.isInteger target register)
    (apart : stackPointer ≠ register) : NamesSaved file stackPointer source target register :=
  ⟨RegisterFile.moved pushed.named, RegisterFile.moved popped.named, apart.symm⟩

theorem StackLayout.hasFrame (own : config.SpellsOwnRegisters)
    (matched : StackProgram.Matches config registers push pop)
    (pushLowers : Assembly.LowersTo config push .push wrap (push.registers config pushed))
    (popLowers : Assembly.LowersTo config pop .pop wrap (pop.registers config popped))
    (layout : StackLayout config.architecture.wordBits config.architecture.registerFile
      config.architecture.stackPointer
      (fun names => (pushed names).flatMap fun instruction => (wrap instruction).effects)
      (fun names => (popped names).flatMap fun instruction => (wrap instruction).effects)) :
    HasFrame config registers push pop := by
  obtain ⟨-, -, isPushed, isPopped, few, distinct, others⟩ := matched
  rcases few with single | pair
  · obtain ⟨register, rfl⟩ := length_eq_one_iff.mp single
    simp only [reverse_singleton, forall₂_cons_right_iff,
      forall₂_nil_right_iff] at isPushed isPopped
    obtain ⟨node, _, stands, rfl, operands⟩ := isPushed
    obtain ⟨popNode, _, popStands, rfl, popOperands⟩ := isPopped
    obtain ⟨source, spells⟩ := node.exists_spells own stands
    obtain ⟨target, popSpells⟩ := popNode.exists_spells own popStands
    obtain ⟨size, frame⟩ := layout.single
      (.of_spells spells popSpells (List.ne_of_not_mem_cons others))
    refine ⟨_, size, _, _, frame, List.Subset.refl _,
      push.execute_registers pushLowers (.inl rfl) operands ?_,
      pop.execute_registers popLowers (.inl rfl) popOperands ?_⟩
    · simp [spells.operand]
    · simp [popSpells.operand]
  · obtain ⟨register, other, rfl⟩ := length_eq_two.mp pair
    simp only [reverse_cons, reverse_nil, nil_append, cons_append, forall₂_cons_right_iff,
      forall₂_nil_right_iff] at isPushed isPopped
    obtain ⟨node, _, stands, ⟨otherNode, _, otherStands, rfl, rfl⟩, operands⟩ := isPushed
    obtain ⟨otherPopNode, _, otherPopStands, ⟨popNode, _, popStands, rfl, rfl⟩, popOperands⟩ :=
      isPopped
    obtain ⟨source, spells⟩ := node.exists_spells own stands
    obtain ⟨otherSource, otherSpells⟩ := otherNode.exists_spells own otherStands
    obtain ⟨target, popSpells⟩ := popNode.exists_spells own popStands
    obtain ⟨otherTarget, otherPopSpells⟩ := otherPopNode.exists_spells own otherPopStands
    simp only [mem_cons, not_mem_nil, or_false, not_or] at others
    obtain ⟨slots, size, frame, covers⟩ := layout.pair
      (.of_spells spells popSpells others.1) (.of_spells otherSpells otherPopSpells others.2)
      (by simpa using distinct)
    refine ⟨slots, size, _, _, frame, covers,
      push.execute_registers pushLowers (.inr rfl) operands ?_,
      pop.execute_registers popLowers (.inr rfl) popOperands ?_⟩
    · simp [spells.operand, otherSpells.operand, Checked.ok_bind]
    · simp [popSpells.operand, otherPopSpells.operand, Checked.ok_bind]

theorem StackProgram.Matches.hasFrame (own : config.SpellsOwnRegisters)
    (matched : Matches config registers push pop) : HasFrame config registers push pop := by
  obtain ⟨architecture, features, names, layout⟩ := config
  have pushes := matched.pushes
  have pops := matched.pops
  cases architecture with
  | arm64 | arm64e =>
    exact StackLayout.hasFrame own matched (Assembly.lowersTo pushes rfl)
      (Assembly.lowersTo pops rfl) Arm64.stackLayout
  | x86 =>
    exact StackLayout.hasFrame own matched (Assembly.lowersTo pushes rfl)
      (Assembly.lowersTo pops rfl) X86.stackLayout
  | riscv =>
    exact StackLayout.hasFrame own matched (Assembly.lowersTo pushes rfl)
      (Assembly.lowersTo pops rfl) Riscv.stackLayout
  | armv7 =>
    exact StackLayout.hasFrame own matched (Assembly.lowersTo pushes rfl)
      (Assembly.lowersTo pops rfl) Armv7.stackLayout
  | loop =>
    have isPushed := matched.pushed
    have few := matched.few
    generalize push.operands = operands at isPushed
    cases isPushed with
    | nil => simp at few
    | cons stands _ =>
      obtain ⟨_, spells⟩ := Node.exists_spells own stands
      cases spells.named

end Statements

/-! ### Runs -/

namespace StackProgram

variable {config : Configuration}

theorem exists_run (own : config.SpellsOwnRegisters) (table : SymbolTable)
    {top : BitVec config.architecture.wordBits}
    (program : StackProgram config.architecture.wordBits) (balanced : program.IsBalanced config top)
    (state : MachineState config.architecture.wordBits)
    (room : distance (state.registers config.architecture.stackPointer) top +
      16 * program.depth < 2 ^ config.architecture.wordBits) :
    ∃ after brackets, program.run config table state = some (after, brackets) ∧
      state.KeepsStack config.architecture.stackPointer top after ∧
      ∀ bracket ∈ brackets, ∀ register ∈ bracket.1,
        bracket.2.2.registers register = bracket.2.1.registers register := by
  induction program generalizing state with
  | done => exact ⟨state, [], rfl, ⟨rfl, fun _ _ => rfl⟩, nofun⟩
  | change step rest ih =>
    obtain ⟨keeps, balanced⟩ := balanced
    have kept := keeps state
    obtain ⟨after, brackets, runs, keepsLater, restored⟩ :=
      ih balanced (step state) (by rwa [kept.pointer])
    exact ⟨after, brackets, runs, kept.trans keepsLater, restored⟩
  | bracket registers push pop inner rest innerHypothesis restIh =>
    obtain ⟨matched, balancedInner, balancedRest⟩ := balanced
    obtain ⟨slots, size, pushing, popping, frame, covers, pushIs, popIs⟩ :=
      matched.hasFrame own
    have small := frame.small
    have deep : 16 * (inner.depth + 1) ≤ 16 * (bracket registers push pop inner rest).depth :=
      Nat.mul_le_mul_left 16 (Nat.le_max_left ..)
    have deepRest : 16 * rest.depth ≤ 16 * (bracket registers push pop inner rest).depth :=
      Nat.mul_le_mul_left 16 (Nat.le_max_right ..)
    obtain ⟨pushed, pushes, deeper, pops⟩ :=
      frame.exists_push config.architecture.whole_wordBits state top (by omega)
    obtain ⟨returned, within, innerRuns, innerKeeps, innerRestored⟩ :=
      innerHypothesis balancedInner pushed (by omega)
    obtain ⟨popped, poppedRuns, keeps, restored⟩ := pops returned innerKeeps
    obtain ⟨after, later, restRuns, restKeeps, restRestored⟩ :=
      restIh balancedRest popped (by rw [keeps.pointer]; omega)
    refine ⟨after, within ++ (registers, state, popped) :: later, ?_, keeps.trans restKeeps, ?_⟩
    · simp only [run, pushIs, popIs, pushes, innerRuns, poppedRuns, restRuns, Option.bind_eq_bind,
        Option.bind_some, Option.pure_def]
    · intro bracket mem
      rcases mem_append.mp mem with mem | mem
      · exact innerRestored bracket mem
      rcases mem_cons.mp mem with rfl | mem
      · intro register saved
        obtain ⟨slot, isSlot, rfl⟩ := mem_map.mp (covers saved)
        exact restored slot isSlot
      · exact restRestored bracket mem

/-- Executing a balanced program, whatever its nesting, restores at each pop the values that the
registers had at the push for it, and it restores the stack pointer in the end. The stack has to fit
into the memory: no push takes more than sixteen bytes. -/
theorem run_restores (own : config.SpellsOwnRegisters) (table : SymbolTable)
    (program : StackProgram config.architecture.wordBits)
    (state : MachineState config.architecture.wordBits)
    (balanced : program.IsBalanced config
      (state.registers config.architecture.stackPointer))
    (room : 16 * program.depth < 2 ^ config.architecture.wordBits) :
    ∃ after brackets, program.run config table state = some (after, brackets) ∧
      after.registers config.architecture.stackPointer =
        state.registers config.architecture.stackPointer ∧
      ∀ bracket ∈ brackets, ∀ register ∈ bracket.1,
        bracket.2.2.registers register = bracket.2.1.registers register := by
  obtain ⟨after, brackets, runs, keeps, restored⟩ :=
    exists_run own table program balanced state (by simpa [distance] using room)
  exact ⟨after, brackets, runs, keeps.pointer, restored⟩

def nestedSaves : StackProgram 64 :=
  let first : Node := .register .nowhere .general "r0"
  let second : Node := .register .nowhere .general "r1"
  .bracket [.integer 0, .integer 1] ⟨.nowhere, "push", [first, second], .null⟩
    ⟨.nowhere, "pop", [second, first], .null⟩
    (.change (·.set (.integer 0) 7)
      (.bracket [.integer 0] ⟨.nowhere, "push", [first], .null⟩ ⟨.nowhere, "pop", [first], .null⟩
        (.change (·.set (.integer 0) 9) .done) .done)) .done

def emptyStack : MachineState 64 := ⟨fun _ => 4096, fun _ => 0, [], false⟩

/-- The values come back although the registers change in between. -/
theorem run_restores_nested :
    ∃ after brackets,
      nestedSaves.run (.ofArchitecture .arm64) {} emptyStack = some (after, brackets) ∧
      after.registers (.integer 31) = emptyStack.registers (.integer 31) ∧
      ∀ bracket ∈ brackets, ∀ register ∈ bracket.1,
        bracket.2.2.registers register = bracket.2.1.registers register := by
  have keeps (value top : BitVec 64) (state : MachineState 64) :
      state.KeepsStack (.integer 31) top (state.set (.integer 0) value) :=
    ⟨by simp, fun _ _ => rfl⟩
  have first : StandsFor (.ofArchitecture .arm64) (.register .nowhere .general "r0")
      (.integer 0) := by decide +kernel
  have second : StandsFor (.ofArchitecture .arm64) (.register .nowhere .general "r1")
      (.integer 1) := by decide +kernel
  refine @run_restores (.ofArchitecture .arm64)
    (Configuration.ofArchitecture_spellsOwnRegisters .arm64) {} nestedSaves
    emptyStack ⟨⟨rfl, rfl, ?_, ?_, .inr rfl, by decide, by decide⟩, ⟨keeps 7 _,
      ⟨rfl, rfl, ?_, ?_, .inl rfl, by decide, by decide⟩, ⟨keeps 9 _, trivial⟩, trivial⟩, trivial⟩
    (by decide)
  · exact .cons first (.cons second .nil)
  · exact .cons second (.cons first .nil)
  · exact .cons first .nil
  · exact .cons first .nil

end StackProgram

end MacroAssembler
