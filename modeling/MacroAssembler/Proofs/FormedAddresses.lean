/-
This module proves that memory operands are lowered to the addresses that they stand for.

A memory operand stands for a place: a register plus an offset, a register plus another one times a
factor plus an offset, or a fixed address. Emission turns it into an addressing mode of the machine,
after lines that form a part of the address in a scratch register where there is no such mode. The
mode then stands for the address that the place has in the registers before the lines.

A scale that is written as the value `true` counts as one. Only x86 writes scales out, and there it
is not a number.
-/
import MacroAssembler.Proofs.ComputedSums

namespace MacroAssembler

open List

variable {bits : Nat}

/-! ### Places -/

/-- What a memory operand stands for. -/
inductive Place
  | direct (base : MachineRegister) (offset : Int)
  | indexed (base index : MachineRegister) (scale : Scale) (offset : Int)
  | absolute (fixed : Int)
deriving DecidableEq, Repr

variable {before after : MachineState bits} {part : MachineState bits → BitVec bits}

namespace Place

def address (state : MachineState bits) : Place → BitVec bits
  | .direct base offset => state.registers base + BitVec.ofInt bits offset
  | .indexed base index scale offset =>
    state.registers base + state.registers index * BitVec.ofNat bits scale.factor +
      BitVec.ofInt bits offset
  | .absolute fixed => BitVec.ofInt bits fixed

def registers : Place → List MachineRegister
  | .direct base _ => [base]
  | .indexed base index _ _ => [base, index]
  | .absolute _ => []

def scale? : Place → Option Scale
  | .indexed _ _ scale _ => some scale
  | _ => none

theorem address_congr {place : Place}
    (kept : ∀ register ∈ place.registers, after.registers register = before.registers register) :
    place.address after = place.address before := by
  cases place with
  | direct base offset => rw [address, address, kept base mem_cons_self]
  | indexed base index scale offset =>
    rw [address, address, kept base mem_cons_self, kept index (mem_cons_of_mem _ mem_cons_self)]
  | absolute fixed => rfl

end Place

namespace Memory

/-- The place that a memory operand stands for, if its registers are integer registers. -/
def place? (config : Configuration) : Memory → Option Place
  | .direct _ base offset => do
    let start ← base.machineRegister? config MachineRegister.isInteger
    let distance ← (offset.immediateValue config).toOption
    return .direct start distance
  | .indexed _ base index scale offset => do
    let start ← base.machineRegister? config MachineRegister.isInteger
    let step ← index.machineRegister? config MachineRegister.isInteger
    let found ← Scale.ofNode? scale
    let distance ← (offset.immediateValue config).toOption
    return .indexed start step found distance
  | .absolute _ place => do
    let fixed ← (place.immediateValue config).toOption
    return .absolute fixed

/-- Whether the parts of a memory operand are spelled as names of registers and have values. -/
inductive Stands (config : Configuration) (file : RegisterFile) : Memory → Place → Prop
  | direct {origin : Origin} {base offset : Node} {baseText : String} {start : MachineRegister}
      {distance : Int}
      (baseSpells : base.Spells config file MachineRegister.isInteger baseText start)
      (evaluated : offset.immediateValue config = .ok distance) :
      Stands config file (.direct origin base offset) (.direct start distance)
  | indexed {origin : Origin} {base index scale offset : Node} {baseText indexText : String}
      {start step : MachineRegister} {found : Scale} {distance : Int}
      (baseSpells : base.Spells config file MachineRegister.isInteger baseText start)
      (indexSpells : index.Spells config file MachineRegister.isInteger indexText step)
      (scaled : Scale.ofNode? scale = some found)
      (evaluated : offset.immediateValue config = .ok distance) :
      Stands config file (.indexed origin base index scale offset)
        (.indexed start step found distance)
  | absolute {origin : Origin} {place : Node} {fixed : Int}
      (evaluated : place.immediateValue config = .ok fixed) :
      Stands config file (.absolute origin place) (.absolute fixed)

variable {config : Configuration} {memory : Memory} {place : Place}

theorem stands_of_place? (own : config.SpellsOwnRegisters)
    (stands : memory.place? config = some place) :
    memory.Stands config config.architecture.registerFile place := by
  cases memory with
  | direct origin base offset =>
    obtain ⟨start, isStart, rest⟩ := Option.bind_eq_some_iff.mp stands
    obtain ⟨distance, evaluated, rest⟩ := Option.bind_eq_some_iff.mp rest
    cases rest
    obtain ⟨baseText, baseSpells⟩ := base.exists_spells own isStart
    exact .direct baseSpells (Except.eq_ok_of_toOption evaluated)
  | indexed origin base index scale offset =>
    obtain ⟨start, isStart, rest⟩ := Option.bind_eq_some_iff.mp stands
    obtain ⟨step, isStep, rest⟩ := Option.bind_eq_some_iff.mp rest
    obtain ⟨found, scaled, rest⟩ := Option.bind_eq_some_iff.mp rest
    obtain ⟨distance, evaluated, rest⟩ := Option.bind_eq_some_iff.mp rest
    cases rest
    obtain ⟨baseText, baseSpells⟩ := base.exists_spells own isStart
    obtain ⟨indexText, indexSpells⟩ := index.exists_spells own isStep
    exact .indexed baseSpells indexSpells scaled (Except.eq_ok_of_toOption evaluated)
  | absolute origin place =>
    obtain ⟨fixed, evaluated, rest⟩ := Option.bind_eq_some_iff.mp stands
    cases rest
    exact .absolute (Except.eq_ok_of_toOption evaluated)

variable {file : RegisterFile}

theorem Stands.spare (stands : memory.Stands config file place) :
    ∀ register ∈ place.registers, register ∉ file.scratch := by
  cases stands with
  | direct baseSpells _ => exact forall_mem_singleton.mpr baseSpells.spare
  | indexed baseSpells indexSpells _ _ =>
    exact forall_mem_cons.mpr ⟨baseSpells.spare, forall_mem_singleton.mpr indexSpells.spare⟩
  | absolute _ => exact nofun

theorem Stands.address_eq {changed : List MachineRegister}
    (stands : memory.Stands config file place) (changes : before.ChangesOnly changed after)
    (inside : changed ⊆ file.scratch) : place.address after = place.address before :=
  Place.address_congr fun register mem => changes.registers register fun isChanged =>
    stands.spare register mem (inside isChanged)

theorem reject_ne_ok {α : Type} {cause : Cause} {result : α} : memory.reject cause ≠ .ok result := by
  intro ran
  obtain ⟨_, _, reported⟩ := Checked.bind_ok.mp ran
  cases reported

end Memory

theorem Node.scaleOf_eq {origin : Origin} {scale : Node} {found : Scale}
    (scaled : Scale.ofNode? scale = some found) : Node.scaleOf origin scale = .ok found := by
  rw [Node.scaleOf, scaled]

theorem shiftLeft_shift (word : BitVec bits) (scale : Scale) :
    word <<< scale.shift = word * BitVec.ofNat bits scale.factor := by
  apply BitVec.eq_of_toNat_eq
  rw [Scale.factor_eq_two_pow_shift, BitVec.toNat_shiftLeft, BitVec.toNat_mul, BitVec.toNat_ofNat,
    Nat.mul_mod_mod, Nat.shiftLeft_eq]
  rfl

/-! ### Formed addresses -/

/-- Whether effects change scratch registers only, and an expression is then the address that a
place had before them. -/
def Forms (bits : Nat) (file : RegisterFile) (scratch : List MachineRegister) (place : Place)
    (effects : List Effect) (mode : Expression) : Prop :=
  ∀ state : MachineState bits, ∃ middle, run file effects state = some middle ∧
    state.ChangesOnly scratch middle ∧ mode.integerValue? file middle = some (place.address state)

section Forms

variable {file : RegisterFile} {scratch : List MachineRegister} {place : Place}
  {effects : List Effect}

theorem forms_nil {mode : Expression}
    (same : ∀ state : MachineState bits, mode.integerValue? file state = some (place.address state)) :
    Forms bits file scratch place [] mode :=
  fun state => ⟨state, rfl, .refl _ _, same state⟩

theorem forms_computed {name : String} {register : MachineRegister} {offset : Int}
    (named : file.integer? name = some register) (computes : Computes file [] register part effects)
    (same : ∀ state, part state + BitVec.ofInt bits offset = place.address state) :
    Forms bits file [register] place effects (.plus (.register name) offset) := by
  intro state
  obtain ⟨middle, runs, holds, changes⟩ := computes state
  refine ⟨middle, runs, changes, ?_⟩
  rw [← same, ← holds]
  exact Expression.value?_result (Expression.value?_register named middle) rfl

end Forms

section Modes

variable {config : Configuration} {memory : Memory} {place : Place}

variable {start : MachineRegister} {baseText : String} {mode : Address} {lines : List Instruction}

namespace Arm64

theorem addressScratch_named : registerFile.integer? addressScratch = some (.integer 16) := by
  decide +kernel

theorem forms_addShifted {indexText : String} {step : MachineRegister}
    (baseNamed : registerFile.integer? baseText = some start)
    (indexNamed : registerFile.integer? indexText = some step) (scale : Scale) (offset : Int) :
    Forms bits registerFile [.integer 16] (.indexed start step scale offset) [.assign addressScratch
        (.result .add (.register baseText) (.shifted (.register indexText) scale.shift))]
      (.plus (.register addressScratch) offset) := by
  refine forms_computed addressScratch_named (computes_assign addressScratch_named fun state =>
    Expression.value?_result (Expression.value?_register baseNamed state)
      (Expression.value?_shifted (Expression.value?_register indexNamed state) _)) fun state => ?_
  rw [shiftLeft_shift]
  rfl

theorem forms_formAddress {isPair : Bool} (stands : memory.Stands config registerFile place)
    (ran : formAddress config isPair memory = .ok (lines, mode)) :
    Forms bits registerFile [.integer 16] place (lines.flatMap Instruction.effects)
      mode.expression := by
  cases stands with
  | direct baseSpells evaluated =>
    simp only [formAddress, addressOf, baseSpells.text, evaluated, Checked.ok_bind] at ran
    cases ran
    exact forms_nil fun state =>
      Expression.value?_result (Expression.value?_register baseSpells.named state) rfl
  | @indexed _ _ _ _ _ _ _ start step found distance baseSpells indexSpells scaled evaluated =>
    have baseValue := fun state : MachineState bits =>
      Expression.value?_register baseSpells.named state
    have indexValue := fun state : MachineState bits =>
      Expression.value?_register indexSpells.named state
    simp only [formAddress, addressOf, baseSpells.text, indexSpells.text, Node.scaleOf_eq scaled,
      evaluated, Checked.ok_bind, pure, Except.pure, Bool.false_eq_true, if_false] at ran
    split at ran
    next =>
      cases ran
      exact forms_addShifted baseSpells.named indexSpells.named found distance
    next single =>
      obtain rfl : distance = 0 := by
        by_contra nonzero
        exact single (by simp [nonzero])
      split at ran
      next plain =>
        have factors : found.factor = 1 ∨ found.factor = 8 := by simpa using plain
        rcases factors with factor | factor
        · simp only [ne_eq, not_true_eq_false, ↓reduceIte, factor, Nat.reduceEqDiff,
            not_false_eq_true, and_true, Checked.ok_bind] at ran
          cases ran
          refine forms_nil fun state => ?_
          refine (Expression.value?_result (baseValue state) (indexValue state)).trans ?_
          simp [Arithmetic.compute, Place.address, factor]
        · simp only [ne_eq, not_true_eq_false, ↓reduceIte, factor, Nat.reduceEqDiff,
            not_false_eq_true, and_false, Checked.ok_bind] at ran
          cases ran
          have shift : found.shift = 3 := by
            cases found <;> cases factor
            rfl
          refine forms_nil fun state => ?_
          refine (Expression.value?_result (baseValue state)
            (Expression.value?_shifted (indexValue state) 3)).trans ?_
          simp [Arithmetic.compute, Place.address, ← shift, shiftLeft_shift]
      next =>
        cases ran
        exact forms_addShifted baseSpells.named indexSpells.named found 0
  | absolute evaluated =>
    obtain ⟨_, found, _⟩ := Checked.bind_ok.mp ran
    exact absurd found Memory.reject_ne_ok

end Arm64

namespace X86

theorem shift?_eq {scale : Scale} (isNumber : scale ≠ .truth) : shift? scale = some scale.shift := by
  cases scale with
  | truth => exact absurd rfl isNumber
  | _ => decide +kernel

theorem forms_addressOf (stands : memory.Stands config registerFile place)
    (isNumber : place.scale? ≠ some .truth) (ran : addressOf config memory = .ok mode) :
    Forms bits registerFile [] place [] mode.expression := by
  refine forms_nil fun state => ?_
  cases stands with
  | direct baseSpells evaluated =>
    simp only [addressOf, baseSpells.text, evaluated, Checked.ok_bind] at ran
    cases ran
    exact Expression.value?_result (Expression.value?_register baseSpells.named state) rfl
  | indexed baseSpells indexSpells scaled evaluated =>
    simp only [addressOf, baseSpells.text, indexSpells.text, Node.scaleOf_eq scaled, evaluated,
      Checked.ok_bind] at ran
    cases ran
    rw [Address.expression, shift?_eq fun isTruth => isNumber (congrArg some isTruth),
      Place.address, ← shiftLeft_shift]
    exact Expression.value?_result (Expression.value?_result
      (Expression.value?_register baseSpells.named state)
      (Expression.value?_shifted (Expression.value?_register indexSpells.named state) _)) rfl
  | absolute evaluated =>
    simp only [addressOf, evaluated, Checked.ok_bind] at ran
    cases ran
    rfl

end X86

namespace Armv7

theorem forms_addressOf (stands : memory.Stands config registerFile place)
    (ran : addressOf config memory = .ok mode) :
    Forms bits registerFile [] place [] mode.expression := by
  refine forms_nil fun state => ?_
  cases stands with
  | direct baseSpells evaluated =>
    simp only [addressOf, baseSpells.text, evaluated, Checked.ok_bind] at ran
    cases ran
    exact Expression.value?_result (Expression.value?_register baseSpells.named state) rfl
  | indexed baseSpells indexSpells scaled evaluated =>
    simp only [addressOf, baseSpells.text, indexSpells.text, Node.scaleOf_eq scaled, evaluated,
      Checked.ok_bind] at ran
    split at ran
    · exact absurd ran Memory.reject_ne_ok
    next zero =>
      obtain rfl := not_not.mp zero
      cases ran
      refine (Expression.value?_result (Expression.value?_register baseSpells.named state)
        (Expression.value?_shifted (Expression.value?_register indexSpells.named state) _)).trans ?_
      simp [Arithmetic.compute, Place.address, shiftLeft_shift]
  | absolute evaluated => exact absurd ran Memory.reject_ne_ok

end Armv7

namespace Riscv

theorem forms_added {value : Expression} {offset : Int}
    (baseNamed : registerFile.integer? baseText = some start) (spare : start ∉ registerFile.scratch)
    (valued : ∀ state, value.integerValue? registerFile state = some (part state))
    (same : ∀ state, state.registers start + part state + BitVec.ofInt bits offset =
      place.address state) : Forms bits registerFile [.integer 31] place
      [.assign scratch value, .assign scratch (.result .add (.register scratch) (.register baseText))]
      (.plus (.register scratch) offset) := by
  have apart : start ∉ [.integer 31] := fun mem =>
    spare (mem_singleton.mp mem ▸ by decide +kernel)
  refine forms_computed scratch_named ((computes_assign scratch_named valued).append
    (computes_assign scratch_named fun state =>
      Expression.value?_result (Expression.value?_register scratch_named state)
        (Expression.value?_register baseNamed state)) ?_) same
  intro before after holds changes
  rw [holds, changes.registers start apart, Arithmetic.compute, BitVec.add_comm]

theorem forms_formAddress (stands : memory.Stands config registerFile place)
    (ran : formAddress config memory = .ok (lines, mode)) :
    Forms bits registerFile [.integer 31] place (lines.flatMap Instruction.effects)
      mode.expression := by
  cases stands with
  | direct baseSpells evaluated =>
    simp only [formAddress, baseSpells.text, evaluated, Checked.ok_bind] at ran
    split at ran
    next =>
      cases ran
      exact forms_nil fun state =>
        Expression.value?_result (Expression.value?_register baseSpells.named state) rfl
    next =>
      cases ran
      refine forms_added baseSpells.named baseSpells.spare (fun _ => rfl) fun state => ?_
      rw [BitVec.ofInt_ofNat, BitVec.add_zero, Place.address]
  | indexed baseSpells indexSpells scaled evaluated =>
    simp only [formAddress, baseSpells.text, indexSpells.text, Node.scaleOf_eq scaled,
      evaluated, Checked.ok_bind] at ran
    split at ran
    next =>
      cases ran
      refine forms_added baseSpells.named baseSpells.spare (fun state =>
        Expression.value?_shifted (Expression.value?_register indexSpells.named state) _)
        fun state => ?_
      rw [shiftLeft_shift]
      rfl
    next => exact absurd ran Memory.reject_ne_ok
  | absolute evaluated =>
    simp only [formAddress, evaluated, Checked.ok_bind] at ran
    cases ran
    refine forms_computed scratch_named (computes_assign scratch_named fun _ => rfl) fun state => ?_
    rw [BitVec.ofInt_ofNat, BitVec.add_zero, Place.address]

end Riscv

end Modes

end MacroAssembler
