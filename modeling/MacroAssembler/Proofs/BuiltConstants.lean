/-
This module proves that constants are built in registers. RISC-V and x86 have an instruction for it;
the ARM machines build a constant from pieces of sixteen bits.

A word is the sum of its pieces, each at its own position. The first instruction sets the lowest
piece and clears the rest, and every further one puts a piece above those that are already there.
After a piece the register therefore holds the word modulo a power of two that is sixteen bits
wider than before. A piece that is zero needs no instruction. The pieces are printed as they are,
each of them with its place.
-/
import MacroAssembler.Proofs.SpelledRegisters

namespace MacroAssembler

variable {bits : Nat}

/-! ### Pieces of words -/

theorem Bits.word_eq_toNat (bits : Nat) (value : Int) :
    word bits value = (BitVec.ofInt bits value).toNat := by
  rw [BitVec.toNat_ofInt]
  rfl

theorem Bits.field_eq (position count value : Nat) :
    field position count value = value / 2 ^ position % 2 ^ count := rfl

/-- A piece that is put above all bits of a word is added to it. -/
theorem insertHalf_ofNat {low half position : Nat} (below : low < 2 ^ position) :
    insertHalf (BitVec.ofNat bits low) half position =
      BitVec.ofNat bits (low + 2 ^ position * half) := by
  apply BitVec.eq_of_getLsbD_eq
  intro place inside
  have sum : (low + 2 ^ position * half).testBit place =
      if place < position then low.testBit place else half.testBit (place - position) := by
    rw [Nat.add_comm, Nat.testBit_two_pow_mul_add half below]
  rw [BitVec.getLsbD_ofNat, sum]
  simp only [insertHalf, BitVec.getLsbD_or, BitVec.getLsbD_and, BitVec.getLsbD_not,
    BitVec.getLsbD_shiftLeft, BitVec.getLsbD_ofNat, inside, decide_true, Bool.true_and]
  by_cases under : place < position
  · simp [under]
  · have clear : low.testBit place = false :=
      Nat.testBit_lt_two_pow (Nat.lt_of_lt_of_le below (Nat.pow_le_pow_right (by omega) (by omega)))
    have shifted : place - position < bits := by omega
    simp [under, clear, shifted]

/-- The lowest bits of a word and the next sixteen make up the lowest bits that are sixteen more. -/
theorem mod_add_field (word position : Nat) :
    word % 2 ^ position + 2 ^ position * Bits.field position 16 word =
      word % 2 ^ (position + 16) := by
  rw [Bits.field_eq, Nat.pow_add, Nat.mod_mul]

/-- The register after the next piece of a word, if it held those below. -/
theorem insertHalf_field (word position : Nat) :
    insertHalf (BitVec.ofNat bits (word % 2 ^ position)) (Bits.field position 16 word) position =
      BitVec.ofNat bits (word % 2 ^ (position + 16)) := by
  rw [insertHalf_ofNat (Nat.mod_lt _ (Nat.two_pow_pos position)), mod_add_field]

theorem ofNat_word_mod (bits : Nat) (value : Int) :
    BitVec.ofNat bits (Bits.word bits value % 2 ^ bits) = BitVec.ofInt bits value := by
  rw [Bits.word_eq_toNat, Nat.mod_eq_of_lt (BitVec.isLt _), BitVec.ofNat_toNat, BitVec.setWidth_eq]

theorem MachineState.set_set (state : MachineState bits) (register : MachineRegister)
    (first second : BitVec bits) :
    (state.set register first).set register second = state.set register second := by
  simp only [set, Function.update_idem]

/-! ### Built constants -/

section Constants

variable {dest : String} {target : MachineRegister}

theorem ofInt_field_zero (bits word : Nat) :
    BitVec.ofInt bits (Bits.field 0 16 word : Nat) = BitVec.ofNat bits (word % 2 ^ 16) := by
  rw [Bits.field_eq, Nat.pow_zero, Nat.div_one, BitVec.ofInt_natCast]

variable {file : RegisterFile}

theorem run_constant (named : file.integer? dest = some target) (value : Int)
    (state : MachineState bits) : run file [.assign dest (.constant value)] state =
      some (state.set target (BitVec.ofInt bits value)) :=
  congrArg (Option.bind · _) (Effect.step_assign named rfl)

/-- A piece is added to a register that holds the lower bits of a word. -/
theorem run_replaced (named : file.integer? dest = some target) (state : MachineState bits)
    (word shift : Nat) : run file [.assign dest
        (.replaced (.register dest) (Bits.field shift 16 word) shift)]
        (state.set target (BitVec.ofNat bits (word % 2 ^ shift))) =
      some (state.set target (BitVec.ofNat bits (word % 2 ^ (shift + 16)))) := by
  simp only [run_cons, run_nil, Effect.step, named, Expression.value?,
    Option.bind_eq_bind, Option.bind_some, Option.pure_def, Option.map_some, Option.some_or,
    MachineState.set_set, MachineState.set_registers, Function.update_self, insertHalf_field]

namespace Arm64

theorem scratch_named : registerFile.integer? scratch = some (.integer 17) := by
  decide +kernel

theorem run_keepChunk (named : registerFile.integer? dest = some target)
    (state : MachineState bits) (word shift : Nat) :
    run registerFile ((keepChunk word dest shift).flatMap Instruction.effects)
        (state.set target (BitVec.ofNat bits (word % 2 ^ shift))) =
      some (state.set target (BitVec.ofNat bits (word % 2 ^ (shift + 16)))) := by
  simp only [keepChunk]
  split
  next zero =>
    rw [← mod_add_field word shift, zero, Nat.mul_zero, Nat.add_zero]
    rfl
  next => exact run_replaced named state word shift

theorem run_materialize (named : registerFile.integer? dest = some target)
    (value : Int) (state : MachineState 64) :
    run registerFile ((materialize value dest).flatMap Instruction.effects) state =
      some (state.set target (BitVec.ofInt 64 value)) := by
  unfold materialize
  split
  next => exact run_constant named value state
  next =>
    simp only [List.flatMap_cons, List.flatMap_nil, List.flatMap_append]
    rw [Instruction.effects, run_append _ (run_constant named _ state), ofInt_field_zero,
      run_append _ (run_keepChunk named state _ 16), run_append _ (run_keepChunk named state _ 32),
      run_append _ (run_keepChunk named state _ 48), run_nil, ofNat_word_mod]

end Arm64

namespace Armv7

theorem scratch_named : registerFile.integer? scratch = some (.integer 4) := by
  decide +kernel

theorem run_materialize (named : registerFile.integer? dest = some target)
    (value : Int) (state : MachineState 32) :
    run registerFile ((materialize value dest).flatMap Instruction.effects) state =
      some (state.set target (BitVec.ofInt 32 value)) := by
  simp only [materialize, List.flatMap_cons]
  rw [Instruction.effects, run_append _ (run_constant named _ state), ofInt_field_zero,
    ← ofNat_word_mod 32 value]
  split
  next zero =>
    rw [← mod_add_field _ 16, zero, Nat.mul_zero, Nat.add_zero]
    rfl
  next => exact run_replaced named state _ 16

end Armv7

theorem Riscv.scratch_named : registerFile.integer? scratch = some (.integer 31) := by
  decide +kernel

theorem X86.scratch_named : registerFile.integer? scratch = some (.integer 11) := by
  decide +kernel

end Constants

/-! ### Printed constants -/

/-- Whether chunks of sixteen bits stand at different places of a word, which are given with them. -/
structure ArePieces (bits : Nat) (pieces : List (Nat × Nat)) : Prop where
  chunks : ∀ piece ∈ pieces, piece.1 ≤ 65535
  places : ∀ piece ∈ pieces, 16 ∣ piece.2 ∧ piece.2 < bits
  distinct : (pieces.map Prod.snd).Nodup

theorem arePieces_fields (word : Nat) {places : List Nat}
    (kept : places.Sublist ((List.range (bits / 16)).map (16 * ·))) :
    ArePieces bits (places.map fun place => (Bits.field place 16 word, place)) where
  chunks := List.forall_mem_map.mpr fun place _ => Nat.le_of_lt_succ (Nat.mod_lt _ (by decide))
  places := List.forall_mem_map.mpr fun place mem => by
    obtain ⟨number, below, rfl⟩ := List.mem_map.mp (kept.subset mem)
    rw [List.mem_range] at below
    exact ⟨Nat.dvd_mul_right _ _, by dsimp only; omega⟩
  distinct := by
    have distinct : ((List.range (bits / 16)).map (16 * ·)).Nodup :=
      List.Pairwise.map _ (fun first second different => by omega) List.nodup_range
    simpa [Function.comp_def] using kept.nodup distinct

namespace Arm64

theorem flatMap_keepChunk (word : Nat) (dest : String) (shifts : List Nat) :
    shifts.flatMap (keepChunk word dest) =
      (shifts.filter fun shift => Bits.field shift 16 word ≠ 0).map fun shift =>
        .moveKeep dest (Bits.field shift 16 word) shift := by
  induction shifts with
  | nil => rfl
  | cons shift rest ih =>
    rw [List.flatMap_cons, ih, keepChunk, List.filter_cons]
    by_cases zero : Bits.field shift 16 word = 0 <;> simp [zero]

theorem materialize_texts (value : Int) (dest : String) :
    (∃ constant : Int, constant.natAbs < 65536 ∧ (materialize value dest).map Instruction.text =
        ["mov " ++ dest ++ ", #" ++ Text.decimal constant]) ∨
      ∃ low rest, ArePieces 64 ((low, 0) :: rest) ∧
        (materialize value dest).map Instruction.text =
          ("movz " ++ dest ++ ", #" ++ Text.decimal low) :: rest.map fun piece =>
            "movk " ++ dest ++ ", #" ++ Text.decimal piece.1 ++ ", lsl #" ++
              Text.decimal piece.2 := by
  unfold materialize
  split
  next small =>
    have limit : Nat.pow 2 16 = 65536 := rfl
    exact .inl ⟨value, by omega, rfl⟩
  next =>
    have kept := @List.filter_sublist _
      (fun shift => decide (Bits.field shift 16 (Bits.word 64 value) ≠ 0)) [16, 32, 48]
    have pieces := @arePieces_fields 64 (Bits.word 64 value) _ (kept.cons_cons 0)
    refine .inr ⟨_, _, pieces, ?_⟩
    simp only [flatMap_keepChunk, List.map_cons, List.map_map]
    rfl

end Arm64

theorem Armv7.materialize_texts (value : Int) (dest : String) :
    ∃ low rest, ArePieces 32 ((low, 0) :: rest) ∧ (materialize value dest).map Instruction.text =
      ("movw " ++ dest ++ ", #" ++ Text.decimal low) :: rest.map fun piece =>
        "movt " ++ dest ++ ", #" ++ Text.decimal piece.1 := by
  unfold materialize
  dsimp only
  split
  next =>
    have pieces := @arePieces_fields 32 (Bits.word 32 value) [0] (by decide)
    exact ⟨_, [], pieces, rfl⟩
  next =>
    have pieces := @arePieces_fields 32 (Bits.word 32 value) [0, 16] (by decide)
    exact ⟨_, _, pieces, rfl⟩

theorem exists_run_of_set {file : RegisterFile} {effects : List Effect}
    {target : MachineRegister} {value : Int} {state : MachineState bits}
    (ran : run file effects state = some (state.set target (BitVec.ofInt bits value))) :
    ∃ after, run file effects state = some after ∧
      ((after.registers target).toNat : Int) = value % 2 ^ bits ∧
      state.ChangesOnly [target] after := by
  refine ⟨_, ran, ?_, state.changesOnly_set (List.mem_singleton_self target) _⟩
  have positive := Nat.two_pow_pos bits
  rw [MachineState.set_registers, Function.update_self, BitVec.toNat_ofInt,
    Int.toNat_of_nonneg (Int.emod_nonneg _ (by omega))]
  push_cast
  rfl

/-- Every constant is built in every register, modulo the size of a word, and nothing else changes.
The pieces it is built from are printed as chunks of sixteen bits, at different places of the word,
and a constant that is printed whole has no more than sixteen bits apart from its sign. -/
theorem Assembly.constants_built (value : Int) (dest : String) (target : MachineRegister) :
    (Arm64.registerFile.integer? dest = some target → ∀ state : MachineState 64, ∃ after,
      run Arm64.registerFile ((Arm64.materialize value dest).flatMap Arm64.Instruction.effects)
          state = some after ∧
        ((after.registers target).toNat : Int) = value % 2 ^ 64 ∧
        state.ChangesOnly [target] after) ∧
    (Armv7.registerFile.integer? dest = some target → ∀ state : MachineState 32, ∃ after,
      run Armv7.registerFile ((Armv7.materialize value dest).flatMap Armv7.Instruction.effects)
          state = some after ∧
        ((after.registers target).toNat : Int) = value % 2 ^ 32 ∧
        state.ChangesOnly [target] after) ∧
    ((∃ constant : Int, constant.natAbs < 65536 ∧
        (Arm64.materialize value dest).map Arm64.Instruction.text =
          ["mov " ++ dest ++ ", #" ++ Text.decimal constant]) ∨
      ∃ low rest, ArePieces 64 ((low, 0) :: rest) ∧
        (Arm64.materialize value dest).map Arm64.Instruction.text =
          ("movz " ++ dest ++ ", #" ++ Text.decimal low) :: rest.map fun piece =>
            "movk " ++ dest ++ ", #" ++ Text.decimal piece.1 ++ ", lsl #" ++
              Text.decimal piece.2) ∧
    ∃ low rest, ArePieces 32 ((low, 0) :: rest) ∧
      (Armv7.materialize value dest).map Armv7.Instruction.text =
        ("movw " ++ dest ++ ", #" ++ Text.decimal low) :: rest.map fun piece =>
          "movt " ++ dest ++ ", #" ++ Text.decimal piece.1 := by
  refine ⟨fun named state => ?_, fun named state => ?_, Arm64.materialize_texts value dest,
    Armv7.materialize_texts value dest⟩
  · exact exists_run_of_set (Arm64.run_materialize named value state)
  · exact exists_run_of_set (Armv7.run_materialize named value state)

/-- A negative constant, of which the lowest piece is zero, on both machines. -/
theorem Assembly.constants_built_negative :
    (∃ after, run Arm64.registerFile
        ((Arm64.materialize (-0x100010000) "x0").flatMap Arm64.Instruction.effects)
        ⟨fun _ => 1, fun _ => 0, [], false⟩ = some after ∧
      (after.registers (.integer 0) : BitVec 64).toNat = 0xFFFFFFFEFFFF0000) ∧
    ∃ after, run Armv7.registerFile
        ((Armv7.materialize (-0x100010000) "r0").flatMap Armv7.Instruction.effects)
        ⟨fun _ => 1, fun _ => 0, [], false⟩ = some after ∧
      (after.registers (.integer 0) : BitVec 32).toNat = 0xFFFF0000 := by
  obtain ⟨after, ran, held, -⟩ := (constants_built (-0x100010000) "x0" (.integer 0)).1
    (by decide +kernel) ⟨fun _ => 1, fun _ => 0, [], false⟩
  obtain ⟨other, otherRan, otherHeld, -⟩ := (constants_built (-0x100010000) "r0" (.integer 0)).2.1
    (by decide +kernel) ⟨fun _ => 1, fun _ => 0, [], false⟩
  exact ⟨⟨after, ran, by omega⟩, other, otherRan, by omega⟩

end MacroAssembler
