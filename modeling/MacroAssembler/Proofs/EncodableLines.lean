/-
This module proves that RISC-V code is encodable: no instruction that a statement is lowered to has
an offset, an immediate or a shift that the machine has no room for.

An offset or an immediate comes from the operands and may be any number, so it is only written into
an instruction after it was found to fit, or it is loaded into a scratch register before. The second
word of a pair has an address of its own, which is formed anew and not by adding to the first one.
-/
import MacroAssembler.Proofs.ComputedSums
import MacroAssembler.Proofs.LoweredInstructions
import MacroAssembler.Proofs.Postconditions

namespace MacroAssembler

open Action List

namespace Riscv

/-- Whether the offset of a load or a store, the immediate of an addition and the amount of a shift
are ones that the machine has room for. -/
@[simp]
def Instruction.IsEncodable : Instruction → Prop
  | .load _ address | .store _ address => -2048 ≤ address.offset ∧ address.offset ≤ 2047
  | .addImmediate _ _ value => -2048 ≤ value ∧ value ≤ 2047
  | .shiftLeft _ _ amount => amount ≤ 3
  | _ => True

def AllEncodable (lines : List Instruction) : Prop := ∀ line ∈ lines, line.IsEncodable

section Lines

variable {first : Instruction} {lines rest : List Instruction}

@[simp]
theorem allEncodable_nil : AllEncodable [] := nofun

@[simp]
theorem allEncodable_cons : AllEncodable (first :: rest) ↔ first.IsEncodable ∧ AllEncodable rest :=
  forall_mem_cons

@[simp]
theorem allEncodable_append : AllEncodable (lines ++ rest) ↔ AllEncodable lines ∧ AllEncodable rest :=
  forall_mem_append

end Lines

@[simp]
theorem fits_iff {value : Int} :
    Bits.fitsSigned 11 value = true ↔ -2048 ≤ value ∧ value ≤ 2047 := by
  rw [Bits.fitsSigned_iff]
  omega

@[simp]
theorem shift_le (scale : Scale) : scale.shift ≤ 3 := by
  cases scale <;> decide

variable {config : Configuration} {stmt : Statement}

def Address.IsEncodable (formed : List Instruction × Address) : Prop :=
  AllEncodable formed.1 ∧ -2048 ≤ formed.2.offset ∧ formed.2.offset ≤ 2047

theorem encodable_formAddress (memory : Memory) :
    Lowers config [memory.toNode] Address.IsEncodable (formAddress config memory) := by
  cases memory <;> simp +contextual [formAddress, Address.IsEncodable]

theorem encodable_memoryOperand {node : Node} (mem : node ∈ stmt.operands) :
    Lowers config stmt.operands Address.IsEncodable (memoryOperand config stmt node) :=
  lowers_memoryOperand mem encodable_formAddress

theorem allEncodable_slots {slot : Nat} {names : List String} (few : slot + names.length ≤ 2) :
    AllEncodable (storeSlots slot names) ∧ AllEncodable (loadSlots slot names) := by
  induction names generalizing slot with
  | nil => exact ⟨nofun, nofun⟩
  | cons name rest ih =>
    rw [length_cons] at few
    obtain ⟨stores, loads⟩ := @ih (slot + 1) (by omega)
    simp only [storeSlots, loadSlots, allEncodable_cons, Instruction.IsEncodable]
    exact ⟨⟨by omega, stores⟩, by omega, loads⟩

theorem encodable_arithmetic (operation : Arithmetic) {source left dest : Node}
    (sourceMem : source ∈ stmt.operands) (leftMem : left ∈ stmt.operands)
    (destMem : dest ∈ stmt.operands) :
    Lowers config stmt.operands AllEncodable (arithmetic config stmt operation source left dest) := by
  simp +contextual [arithmetic, *]

theorem encodable_loaded {source : Node} (mem : source ∈ stmt.operands) :
    Lowers config stmt.operands (fun build => ∀ dest, AllEncodable (build dest))
      (loaded config stmt source) :=
  (encodable_memoryOperand mem).bind fun formed _ encodable => by
    simp [encodable.1, encodable.2]

theorem encodable_stored : Lowers config stmt.operands AllEncodable (storeStatement config stmt) := by
  unfold storeStatement
  split
  · rename_i source dest operands
    have mem : source ∈ stmt.operands := by simp [operands]
    have value : Lowers config stmt.operands (fun stored => AllEncodable stored.1)
        (storedValue config stmt source) := by
      simp [storedValue, mem]
    refine value.bind fun stored _ stores => ?_
    refine (encodable_memoryOperand (by simp [operands])).bind fun formed _ encodable => ?_
    simp [stores, encodable.1, encodable.2]
  · exact lowers_rejectCount _

theorem encodable_compared (condition : Condition) {left right : Node}
    (leftMem : left ∈ stmt.operands) (rightMem : right ∈ stmt.operands) :
    Lowers config stmt.operands (fun build => ∀ target, AllEncodable (build target))
      (compared config stmt condition left right) := by
  have value : Lowers config stmt.operands (fun filled => AllEncodable filled.1)
      (comparedValue config stmt right) := by
    simp [comparedValue, rightMem]
  refine (lowers_register config leftMem).bind fun _ _ _ => value.bind fun filled _ fills => ?_
  simp [fills]

/-- Both words of a pair have an offset that fits, also where only the first one has the offset of
the operand. -/
theorem encodable_pairs : Lowers config stmt.operands AllEncodable (loadPairStatement config stmt) ∧
    Lowers config stmt.operands AllEncodable (storePairStatement config stmt) := by
  unfold loadPairStatement storePairStatement
  constructor <;> split
  · rename_i place first second operands
    have mem : first ∈ stmt.operands ∧ second ∈ stmt.operands := by simp [operands]
    refine lowers_memory.bind fun memory found _ => ?_
    exact lowers_consecutive (by simp [operands]) found encodable_formAddress
      fun formed next here there => by simp [mem, here.1, here.2, there.1, there.2]
  · exact lowers_rejectCount _
  · rename_i first second place operands
    have mem : first ∈ stmt.operands ∧ second ∈ stmt.operands := by simp [operands]
    refine lowers_memory.bind fun memory found _ => ?_
    exact lowers_consecutive (by simp [operands]) found encodable_formAddress
      fun formed next here there => by simp [mem, here.1, here.2, there.1, there.2]
  · exact lowers_rejectCount _

/-! ### Statements -/

abbrev Encodes (step : Emit (List Instruction)) : Prop := Ensures (fun _ => True) AllEncodable step

theorem encodes_lift (config : Configuration) (stmt : Statement)
    {lowered : Checked (List Instruction)}
    (lowers : Lowers config stmt.operands AllEncodable lowered) : Encodes lowered :=
  .lift lowers.ensures

theorem encodes_move : Encodes (stmt.move config (fun target dest => .loadAddress dest target)
    (fun value dest => [.loadImmediate dest value]) fun source dest => .move dest source) := by
  unfold Statement.move
  split
  · refine .check fun destText _ => (Ensures.of_any _).bind fun target _ => ?_
    cases target with
    | some target => exact .pure (by simp)
    | none =>
      dsimp only
      split <;> exact .check fun _ _ => .pure (by simp)
  · exact encodes_lift config stmt (lowers_rejectCount _)

theorem encodes_transfer {toLabel : Target → Instruction} {toRegister : String → Instruction}
    (labels : ∀ target, (toLabel target).IsEncodable)
    (registers : ∀ name, (toRegister name).IsEncodable) :
    Encodes (stmt.transfer config toLabel toRegister) := by
  unfold Statement.transfer
  split
  · split
    · exact .check fun text _ => .pure (forall_mem_singleton.mpr (registers text))
    · exact (Ensures.of_any _).bind fun target _ => .pure (forall_mem_singleton.mpr (labels target))
  · exact encodes_lift config stmt (lowers_rejectCount _)

theorem encodes_branch (condition : Condition) :
    Encodes (stmt.branch (compared config stmt condition)) := by
  unfold Statement.branch
  split
  · rename_i left right place operands
    refine .check fun build built => (Ensures.of_any _).bind fun target _ => .pure ?_
    have members : (comparisonOrder left right).1 ∈ stmt.operands ∧
        (comparisonOrder left right).2 ∈ stmt.operands := by
      rcases comparisonOrder_cases left right with order | order <;> simp [order, operands]
    exact (encodable_compared condition members.1 members.2).ensures build built target
  · exact encodes_lift config stmt (lowers_rejectCount _)

theorem encodes_lower (opcode : Opcode) : Encodes (lower config stmt opcode) := by
  cases opcode with
  | addp | addq | subp | subq =>
    exact encodes_lift config stmt (lowers_combination fun _ _ _ => encodable_arithmetic _)
  | move => exact encodes_move
  | push =>
    refine encodes_lift config stmt (lowers_registersForm fun names few => ?_)
    simp [pushed, (allEncodable_slots (by omega : 0 + names.length ≤ 2)).1]
  | pop =>
    refine encodes_lift config stmt (lowers_registersForm fun names few => ?_)
    simp [popped, (allEncodable_slots (by simpa using few : 0 + names.reverse.length ≤ 2)).2]
  | loadp | loadq => exact encodes_lift config stmt (lowers_load fun _ => encodable_loaded)
  | storep | storeq => exact encodes_lift config stmt encodable_stored
  | loadpairq => exact encodes_lift config stmt encodable_pairs.1
  | storepairq => exact encodes_lift config stmt encodable_pairs.2
  | jmp | call => exact encodes_transfer (fun _ => trivial) fun _ => trivial
  | ret | trap | nop => exact encodes_lift config stmt (lowers_bare (by simp))
  | bpeq | bpneq => exact encodes_branch _

end Riscv

/-- A RISC-V statement with an opcode of the machine is lowered to instructions that are all
encodable, whatever its operands and the values of layout constants. -/
theorem Assembly.riscvLines_encodable {config : Configuration}
    (isRiscv : config.architecture = .riscv) (statement : Statement) {opcode : Opcode}
    (named : statement.opcode = opcode.name) {table after : SymbolTable} {code : Code}
    (succeeded : (lower config statement.toNode).perform table = (.ok code, after)) :
    ∃ lines, code = .statements lines ∧ ∀ line ∈ lines, ∃ instruction comment,
      line = .code (.riscv instruction) comment ∧ instruction.IsEncodable := by
  have handled : instructions? config statement opcode = some (do
      let lowered ← Riscv.lower config statement opcode
      return lowered.map MachineInstruction.riscv) := by
    unfold instructions?
    rw [isRiscv]
  rw [perform_lower named handled, perform_bind] at succeeded
  have encodes := @Riscv.encodes_lower config statement opcode table trivial
  rcases lowers : (Riscv.lower config statement opcode).perform table with
    ⟨failure | lowered, middle⟩ <;> rw [lowers] at succeeded encodes <;> cases succeeded
  refine ⟨_, rfl, fun line mem => ?_⟩
  obtain ⟨_, inMapped, shown, rfl⟩ := Line.exists_of_mem_ofInstructions mem
  obtain ⟨instruction, inside, rfl⟩ := mem_map.mp inMapped
  exact ⟨instruction, shown, rfl, encodes.2 lowered rfl instruction inside⟩

def farPair : Statement :=
  ⟨.nowhere, "loadpairq", [.address .nowhere (.register .nowhere .general "t0")
    (.immediate .nowhere 2040), .register .nowhere .general "t1", .register .nowhere .general "t2"],
    .null⟩

/-- The address of the second word is formed in the scratch register. -/
theorem Assembly.riscvLines_encodable_far :
    ∃ lines, ((lower (.ofArchitecture .riscv) farPair.toNode).perform {}).1 =
        .ok (.statements lines) ∧
      lines.map Line.text = ["\"\\tld x11, 2040(x10)\\n\"", "\"\\tli x31, 2048\\n\"",
        "\"\\tadd x31, x31, x10\\n\"", "\"\\tld x12, 0(x31)\\n\""] ∧
      ∀ line ∈ lines, ∃ instruction comment,
        line = .code (.riscv instruction) comment ∧ instruction.IsEncodable := by
  obtain ⟨code, succeeded⟩ :
      ∃ code, (lower (.ofArchitecture .riscv) farPair.toNode).perform {} = (.ok code, {}) :=
    ⟨_, rfl⟩
  obtain ⟨lines, rfl, encodable⟩ := riscvLines_encodable rfl farPair
    (rfl : _ = Opcode.loadpairq.name) succeeded
  refine ⟨lines, by rw [succeeded], ?_, encodable⟩
  cases succeeded
  decide +kernel

end MacroAssembler
