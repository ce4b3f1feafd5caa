/-
This module proves that a comparison of two words decides a branch.

A branch is lowered to lines that compare its operands and one that goes to the target if the
condition holds. Where the comparison has no room for an immediate, it is built in a scratch
register first. RISC-V compares in the branch itself; the other machines keep whether the sides were
equal until the branch asks for it.
-/
import MacroAssembler.Proofs.AccessedWords

namespace MacroAssembler

open Action List

variable {bits : Nat}

/-! ### Branches -/

def Condition.holds (condition : Condition) (isEqual : Bool) : Bool :=
  match condition with
  | .equal => isEqual
  | .notEqual => !isEqual

namespace MachineInstruction

def isBranch : MachineInstruction → Bool
  | .arm64 instruction =>
    match instruction with
    | .branch _ | .branchRegister _ | .call _ | .callRegister _ | .ret | .branchIf .. => true
    | _ => false
  | .x86 instruction =>
    match instruction with
    | .jump _ | .jumpRegister _ | .call _ | .callRegister _ | .ret | .jumpIf .. => true
    | _ => false
  | .riscv instruction =>
    match instruction with
    | .jump _ | .jumpRegister _ | .call _ | .callRegister _ | .ret | .branchIf .. => true
    | _ => false
  | .armv7 instruction =>
    match instruction with
    | .branch _ | .branchRegister _ | .call _ | .callRegister _ | .ret | .branchIf .. => true
    | _ => false

/-- Where a conditional branch goes, and whether it does so in a state. -/
def decision? (file : RegisterFile) (state : MachineState bits) :
    MachineInstruction → Option (Target × Bool)
  | .arm64 (.branchIf condition target) | .x86 (.jumpIf condition target)
  | .armv7 (.branchIf condition target) => some (target, condition.holds state.isEqual)
  | .riscv (.branchIf condition left right target) => do
    let first ← (Expression.register left).integerValue? file state
    let second ← (Expression.register right).integerValue? file state
    return (target, condition.holds (first == second))
  | _ => none

def FitsComparison : MachineInstruction → Prop
  | .arm64 (.compareImmediate _ value) => 0 ≤ value ∧ value ≤ 4095
  | .armv7 (.compareImmediate _ value) => 0 ≤ value ∧ value ≤ 255
  | .x86 (.compare (.immediate value) _) => -2 ^ 31 ≤ value ∧ value < 2 ^ 31
  | _ => True

end MachineInstruction

def Node.symbol? : Node → Option Target
  | .labelReference _ mark offset => some (.symbol mark.name offset)
  | .localReference _ mark => mark.symbol.toOption.map .localSymbol
  | _ => none

/-- Whether lowering succeeds, with lines that do not branch and a last one that goes to the target
if a condition holds of two sources. -/
def Decides {ι : Type} (bits : Nat) (wrap : ι → MachineInstruction) (file : RegisterFile)
    (condition : Condition) (left right : Source) (lowered : Checked (Target → List ι)) : Prop :=
  ∃ (lines : List ι) (branch : Target → ι), lowered = .ok (fun target => lines ++ [branch target]) ∧
    (∀ line ∈ lines, (wrap line).isBranch = false ∧ (wrap line).FitsComparison) ∧
    ∀ state : MachineState bits, ∃ after,
      run file (lines.flatMap fun line => (wrap line).effects) state = some after ∧
      state.ChangesOnly file.scratch after ∧
      ∀ target, (wrap (branch target)).decision? file after =
        some (target, condition.holds (left.value state == right.value state))

section Decides

variable {ι : Type} {wrap : ι → MachineInstruction} {file : RegisterFile} {condition : Condition}
  {config : Configuration} {left : Node} {right : Source} {name : String}
  {register : MachineRegister} {value : Expression}

end Decides

/-! ### Machines -/

def DecidesComparisons {ι : Type} (bits : Nat) (wrap : ι → MachineInstruction)
    (file : RegisterFile) (config : Configuration)
    (compared : Condition → Node → Node → Checked (Target → List ι)) : Prop :=
  ∀ condition {left right : Node} {leftText leftRegister meaning},
    left.Spells config file MachineRegister.isInteger leftText leftRegister →
    right.Gives config file MachineRegister.isInteger meaning →
    Decides bits wrap file condition (.register leftRegister) meaning
      (compared condition left right)

section Lowering

variable {config : Configuration} {stmt : Statement} {opcode : Opcode}
  {condition : Condition} {left right place : Node} {leftMeaning rightMeaning : Source}
  {target : Target} {ι : Type} {wrap : ι → MachineInstruction} {file : RegisterFile}
  {compared : Condition → Node → Node → Checked (Target → List ι)}

theorem Decides.symm {lowered : Checked (Target → List ι)}
    (decides : Decides bits wrap file condition leftMeaning rightMeaning lowered) :
    Decides bits wrap file condition rightMeaning leftMeaning lowered := by
  obtain ⟨lines, branch, isOk, plain, runs⟩ := decides
  refine ⟨lines, branch, isOk, plain, fun state => ?_⟩
  rw [BEq.comm]
  exact runs state

theorem DecidesComparisons.ordered (decides : DecidesComparisons bits wrap file config compared)
    (leftGives : left.Gives config file MachineRegister.isInteger leftMeaning)
    (rightGives : right.Gives config file MachineRegister.isInteger rightMeaning)
    (single : left.isLiteral = false ∨ right.isLiteral = false) (condition : Condition) :
    Decides bits wrap file condition leftMeaning rightMeaning
      (compared condition (comparisonOrder left right).1 (comparisonOrder left right).2) := by
  cases leftGives with
  | register leftSpells =>
    rw [comparisonOrder, leftSpells.notLiteral]
    exact decides condition leftSpells rightGives
  | immediate leftLiteral leftEvaluated =>
    cases rightGives with
    | register rightSpells =>
      rw [comparisonOrder, leftLiteral, rightSpells.notLiteral]
      exact (decides condition rightSpells (.immediate leftLiteral leftEvaluated)).symm
    | immediate rightLiteral _ => simp [leftLiteral, rightLiteral] at single

end Lowering

end MacroAssembler
