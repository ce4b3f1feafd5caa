/-
This module holds the state of a machine that executes assembly.

A machine has a file of integer registers and one of floating-point registers, a memory of bytes,
and a flag for the last comparison. A word is as wide as a register, and it lies in memory with its
lowest byte first. Addresses are words as well, so they wrap around. The state remembers which words
were read and written, in order: a load that reads somewhere else in addition would leave the same
registers behind.
-/
import Mathlib.Algebra.Group.Int.Defs
import Mathlib.Algebra.Group.Nat.Defs
import Mathlib.Logic.Function.Basic

namespace MacroAssembler

variable {bits : Nat}

/-! ### Memory -/

abbrev ByteMemory (bits : Nat) := BitVec bits → BitVec 8

namespace ByteMemory

def bytes (memory : ByteMemory bits) (address : BitVec bits) : (count : Nat) → BitVec (8 * count)
  | 0 => 0#0
  | count + 1 => memory.bytes (address + 1) count ++ memory address

def word (memory : ByteMemory bits) (address : BitVec bits) : BitVec bits :=
  (memory.bytes address (bits / 8)).setWidth bits

/-- How far a place lies behind an address. -/
def distance (address place : BitVec bits) : Nat := (place - address).toNat

def withWord (memory : ByteMemory bits) (address value : BitVec bits) : ByteMemory bits :=
  fun place =>
    if distance address place < bits / 8 then value.extractLsb' (8 * distance address place) 8
    else memory place

theorem getLsbD_bytes (memory : ByteMemory bits) (address : BitVec bits) (count position : Nat)
    (inside : position < 8 * count) : (memory.bytes address count).getLsbD position =
      (memory (address + BitVec.ofNat bits (position / 8))).getLsbD (position % 8) := by
  induction count generalizing address position with
  | zero => omega
  | succ count ih =>
    rw [bytes, BitVec.getLsbD_append]
    split
    · rename_i first
      rw [Nat.div_eq_of_lt first, Nat.mod_eq_of_lt first, BitVec.add_zero]
    · rename_i later
      have place : address + 1 + BitVec.ofNat bits ((position - 8) / 8) =
          address + BitVec.ofNat bits (position / 8) := by
        rw [show position / 8 = 1 + (position - 8) / 8 by omega, BitVec.ofNat_add, BitVec.add_assoc]
        rfl
      rw [ih _ _ (by omega), place, show (position - 8) % 8 = position % 8 by omega]

theorem getLsbD_word (whole : 8 ∣ bits) (memory : ByteMemory bits) (address : BitVec bits)
    (position : Nat) (inside : position < bits) : (memory.word address).getLsbD position =
      (memory (address + BitVec.ofNat bits (position / 8))).getLsbD (position % 8) := by
  rw [word, BitVec.getLsbD_setWidth, decide_eq_true inside, Bool.true_and,
    getLsbD_bytes _ _ _ _ (by omega)]

variable {address : BitVec bits}

theorem word_congr (whole : 8 ∣ bits) {memory other : ByteMemory bits}
    (same : ∀ number < bits / 8, memory (address + BitVec.ofNat bits number) =
      other (address + BitVec.ofNat bits number)) : memory.word address = other.word address := by
  refine BitVec.eq_of_getLsbD_eq fun position inside => ?_
  rw [getLsbD_word whole _ _ _ inside, getLsbD_word whole _ _ _ inside, same _ (by omega)]

theorem distance_add (address : BitVec bits) {number : Nat} (small : number < 2 ^ bits) :
    distance address (address + BitVec.ofNat bits number) = number := by
  unfold distance
  rw [BitVec.add_comm, BitVec.add_sub_cancel, BitVec.toNat_ofNat, Nat.mod_eq_of_lt small]

theorem withWord_outside (memory : ByteMemory bits) {place : BitVec bits} (value : BitVec bits)
    (outside : bits / 8 ≤ distance address place) :
    memory.withWord address value place = memory place :=
  if_neg (Nat.not_lt.mpr outside)

theorem word_withWord (whole : 8 ∣ bits) (memory : ByteMemory bits) (address value : BitVec bits) :
    (memory.withWord address value).word address = value := by
  refine BitVec.eq_of_getLsbD_eq fun position inside => ?_
  have small : position / 8 < 2 ^ bits := by
    have bound : bits < 2 ^ bits := Nat.lt_two_pow_self
    omega
  rw [getLsbD_word whole _ _ _ inside, withWord, distance_add _ small, if_pos (by omega),
    BitVec.getLsbD_extractLsb', decide_eq_true (Nat.mod_lt _ (by omega)), Bool.true_and,
    show 8 * (position / 8) + position % 8 = position by omega]

theorem word_withWord_of_apart (whole : 8 ∣ bits) (memory : ByteMemory bits) {other : BitVec bits}
    (value : BitVec bits) (apart : ∀ number < bits / 8,
      bits / 8 ≤ distance address (other + BitVec.ofNat bits number)) :
    (memory.withWord address value).word other = memory.word other :=
  word_congr whole fun number inside => withWord_outside _ _ (apart number inside)

end ByteMemory

/-! ### States -/

inductive MachineRegister
  | integer (number : Nat)
  | float (number : Nat)
deriving DecidableEq, Repr

def MachineRegister.isInteger : MachineRegister → Bool
  | .integer _ => true
  | .float _ => false

inductive Access (bits : Nat)
  | read (address : BitVec bits)
  | write (address : BitVec bits)
deriving DecidableEq, Repr

structure MachineState (bits : Nat) where
  registers : MachineRegister → BitVec bits
  memory : ByteMemory bits
  /-- The accesses to the memory so far. -/
  accesses : List (Access bits) := []
  /-- Whether the last comparison found its sides equal. -/
  isEqual : Bool := false

namespace MachineState

def set (state : MachineState bits) (register : MachineRegister) (value : BitVec bits) :
    MachineState bits :=
  { state with registers := Function.update state.registers register value }

def load (state : MachineState bits) (register : MachineRegister) (address : BitVec bits) :
    MachineState bits :=
  { state.set register (state.memory.word address) with
    accesses := state.accesses ++ [.read address] }

def store (state : MachineState bits) (address value : BitVec bits) : MachineState bits :=
  { state with
    memory := state.memory.withWord address value
    accesses := state.accesses ++ [.write address] }

variable (state : MachineState bits) (register : MachineRegister) (address value : BitVec bits)

@[simp]
theorem set_registers :
    (state.set register value).registers = Function.update state.registers register value := rfl

@[simp]
theorem set_memory : (state.set register value).memory = state.memory := rfl

@[simp]
theorem set_accesses : (state.set register value).accesses = state.accesses := rfl

@[simp]
theorem load_registers : (state.load register address).registers =
      Function.update state.registers register (state.memory.word address) := rfl

@[simp]
theorem load_memory : (state.load register address).memory = state.memory := rfl

@[simp]
theorem load_accesses :
    (state.load register address).accesses = state.accesses ++ [.read address] := rfl

@[simp]
theorem store_registers : (state.store address value).registers = state.registers := rfl

@[simp]
theorem store_memory :
    (state.store address value).memory = state.memory.withWord address value := rfl

@[simp]
theorem store_accesses :
    (state.store address value).accesses = state.accesses ++ [.write address] := rfl

/-! ### Changes to registers only -/

/-- Whether a state differs from an earlier one in the given registers only, apart from the flag. -/
structure ChangesOnly (changed : List MachineRegister) (before after : MachineState bits) : Prop where
  registers : ∀ register, register ∉ changed → after.registers register = before.registers register
  memory : after.memory = before.memory
  accesses : after.accesses = before.accesses

variable {changed more : List MachineRegister} {before middle after : MachineState bits}

theorem ChangesOnly.refl (changed : List MachineRegister) (state : MachineState bits) :
    ChangesOnly changed state state :=
  ⟨fun _ _ => rfl, rfl, rfl⟩

theorem ChangesOnly.trans (first : ChangesOnly changed before middle)
    (second : ChangesOnly changed middle after) : ChangesOnly changed before after where
  registers register kept := by rw [second.registers register kept, first.registers register kept]
  memory := by rw [second.memory, first.memory]
  accesses := by rw [second.accesses, first.accesses]

theorem ChangesOnly.mono (changes : ChangesOnly changed before after) (subset : changed ⊆ more) :
    ChangesOnly more before after where
  registers register kept := changes.registers register fun mem => kept (subset mem)
  memory := changes.memory
  accesses := changes.accesses

theorem changesOnly_set {register : MachineRegister} (mem : register ∈ changed)
    (value : BitVec bits) : ChangesOnly changed state (state.set register value) where
  registers other kept := by
    rw [set_registers, Function.update_of_ne]
    rintro rfl
    exact kept mem
  memory := rfl
  accesses := rfl

end MachineState

end MacroAssembler
