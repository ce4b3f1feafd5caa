/-
This module proves that additions and subtractions are lowered to lines that compute them.

Every machine has its own way around immediates that an instruction has no room for: the inverse
operation, an addition of the negated value, or a constant that is first built in a scratch
register. The lines may also have to read a register after they have changed another one, so the
result depends on which operands are the same register. It is always the one that the values before
the first line give, whichever of the source, the left operand and the destination coincide.
-/
import MacroAssembler.Proofs.BuiltConstants
import Mathlib.Data.List.Nodup

namespace MacroAssembler

open List

variable {bits : Nat}

/-! ### Results and immediates -/

/-- Whether effects put a result that depends on the state into a register, and change no other
register besides the scratch registers. -/
def Computes (file : RegisterFile) (scratch : List MachineRegister) (target : MachineRegister)
    (result : MachineState bits → BitVec bits) (effects : List Effect) : Prop :=
  ∀ state, ∃ after, run file effects state = some after ∧
    after.registers target = result state ∧ state.ChangesOnly (target :: scratch) after

variable {value : Expression} {name : String}

section Computes

variable {file : RegisterFile} {scratch : List MachineRegister} {target : MachineRegister}
  {targetText : String} {middle used result : MachineState bits → BitVec bits}
  {effects rest : List Effect}

theorem computes_assign (named : file.integer? targetText = some target)
    (valued : ∀ state, value.integerValue? file state = some (result state)) :
    Computes file scratch target result [.assign targetText value] := by
  intro state
  refine ⟨state.set target (result state), ?_, ?_, ?_⟩
  · rw [run_cons, Effect.step_assign named (valued state)]
    rfl
  · rw [MachineState.set_registers, Function.update_self]
  · exact MachineState.changesOnly_set _ mem_cons_self _

theorem Computes.append (first : Computes file scratch target middle effects)
    (second : Computes file scratch target used rest)
    (same : ∀ before after : MachineState bits, after.registers target = middle before →
      before.ChangesOnly (target :: scratch) after → used after = result before) :
    Computes file scratch target result (effects ++ rest) := by
  intro state
  obtain ⟨between, runs, holds, changes⟩ := first state
  obtain ⟨after, runsRest, holdsRest, changesRest⟩ := second between
  exact ⟨after, (run_append _ runs).trans runsRest,
    holdsRest.trans (same state between holds changes), changes.trans changesRest⟩

end Computes

/-- Whether the immediate of an addition or a subtraction is one that the machine has room for. -/
def MachineInstruction.FitsImmediate : MachineInstruction → Prop
  | .arm64 (.arithmeticImmediate _ _ _ value) => 0 ≤ value ∧ value ≤ 4095
  | .armv7 (.arithmeticImmediate _ _ _ value) => 0 ≤ value ∧ value ≤ 4095
  | .riscv (.addImmediate _ _ value) => -2048 ≤ value ∧ value ≤ 2047
  | .x86 (.arithmetic _ (.immediate value) _) => -2 ^ 31 ≤ value ∧ value < 2 ^ 31
  | _ => True

/-- Whether lowering succeeds, with lines that compute a result and with immediates that fit. -/
def Realizes {ι : Type} (wrap : ι → MachineInstruction) (file : RegisterFile)
    (target : MachineRegister) (result : MachineState bits → BitVec bits)
    (lowered : Checked (List ι)) : Prop :=
  ∃ lines, lowered = .ok lines ∧ (∀ line ∈ lines, (wrap line).FitsImmediate) ∧
    Computes file file.scratch target result (lines.flatMap fun line => (wrap line).effects)

theorem Bits.fitsUnsigned_iff (count : Nat) (value : Int) :
    fitsUnsigned count value = true ↔ 0 ≤ value ∧ value < (2 ^ count : Nat) := by
  rw [fitsUnsigned, Bool.and_eq_true, decide_eq_true_iff, decide_eq_true_iff]
  rfl

theorem Bits.fitsSigned_iff (count : Nat) (value : Int) :
    fitsSigned count value = true ↔ -(2 ^ count : Nat) ≤ value ∧ value < (2 ^ count : Nat) := by
  rw [fitsSigned, Bool.and_eq_true, decide_eq_true_iff, decide_eq_true_iff]
  rfl

theorem Arithmetic.compute_inverse_neg (operation : Arithmetic) (left : BitVec bits) (value : Int) :
    operation.inverse.compute left (BitVec.ofInt bits (-value)) =
      operation.compute left (BitVec.ofInt bits value) := by
  cases operation
  · simp [inverse, compute, BitVec.ofInt_neg, BitVec.sub_neg]
  · simp [inverse, compute, BitVec.ofInt_neg, BitVec.sub_eq_add_neg]

theorem Arithmetic.compute_built (operation : Arithmetic) {scratch : List MachineRegister}
    {register left : MachineRegister} (mem : register ∈ scratch) (spare : left ∉ scratch)
    (state : MachineState bits) (built : BitVec bits) :
    operation.compute ((state.set register built).registers left)
        ((state.set register built).registers register) =
      operation.compute (state.registers left) built := by
  rw [MachineState.set_registers, Function.update_self,
    Function.update_of_ne (ne_of_mem_of_not_mem mem spare).symm]

section Realizes

variable {ι : Type} {wrap : ι → MachineInstruction} {file : RegisterFile}
  {target register leftRegister : MachineRegister} {targetText leftText scratchText : String}
  {result : MachineState bits → BitVec bits} {operation : Arithmetic} {lines rest : List ι}
  {line : ι} {built : BitVec bits} {config : Configuration} {left : Node}

theorem realizes_assign (fits : (wrap line).FitsImmediate)
    (does : (wrap line).effects = [.assign targetText value])
    (named : file.integer? targetText = some target)
    (valued : ∀ state, value.integerValue? file state = some (result state)) :
    Realizes wrap file target result (.ok [line]) := by
  refine ⟨_, rfl, forall_mem_singleton.mpr fits, ?_⟩
  rw [flatMap_singleton, does]
  exact computes_assign named valued

/-- Lines may use a value that others have put into a scratch register. -/
theorem Realizes.after_built (mem : register ∈ file.scratch)
    (fits : ∀ line ∈ lines, (wrap line).FitsImmediate)
    (builds : ∀ state, run file (lines.flatMap fun line => (wrap line).effects) state =
      some (state.set register built)) {used : MachineState bits → BitVec bits}
    (realizes : Realizes wrap file target used (.ok rest))
    (same : ∀ state, used (state.set register built) = result state) :
    Realizes wrap file target result (.ok (lines ++ rest)) := by
  obtain ⟨_, isOk, restFits, computes⟩ := realizes
  cases isOk
  refine ⟨_, rfl, forall_mem_append.mpr ⟨fits, restFits⟩, fun state => ?_⟩
  obtain ⟨after, runs, holds, changes⟩ := computes (state.set register built)
  refine ⟨after, ?_, holds.trans (same state), .trans ?_ changes⟩
  · rw [flatMap_append, run_append _ (builds state), runs]
  · exact MachineState.changesOnly_set _ (mem_cons_of_mem _ mem) _

theorem realizes_built (mem : register ∈ file.scratch)
    (scratchNamed : file.integer? scratchText = some register)
    (fits : ∀ line ∈ lines, (wrap line).FitsImmediate)
    (builds : ∀ state, run file (lines.flatMap fun line => (wrap line).effects) state =
      some (state.set register built)) (lineFits : (wrap line).FitsImmediate)
    (does : (wrap line).effects =
      [.assign targetText (.result operation (.register leftText) (.register scratchText))])
    (targetNamed : file.integer? targetText = some target)
    (leftSpells : left.Spells config file MachineRegister.isInteger leftText leftRegister) :
    Realizes wrap file target (fun state => operation.compute (state.registers leftRegister) built)
      (.ok (lines ++ [line])) :=
  .after_built mem fits builds
    (realizes_assign lineFits does targetNamed fun state =>
      Expression.value?_result (Expression.value?_register leftSpells.named state)
        (Expression.value?_register scratchNamed state))
    fun state => operation.compute_built mem leftSpells.spare state built

end Realizes

structure Operands (config : Configuration) (file : RegisterFile)
    (source left dest : Node) where
  leftText : String
  leftRegister : MachineRegister
  targetText : String
  target : MachineRegister
  meaning : Source
  leftSpells : left.Spells config file MachineRegister.isInteger leftText leftRegister
  targetSpells : dest.Spells config file MachineRegister.isInteger targetText target
  gives : source.Gives config file MachineRegister.isInteger meaning

def Operands.result {config : Configuration} {file : RegisterFile}
    {source left dest : Node}
    (operands : Operands config file source left dest) (operation : Arithmetic)
    (state : MachineState bits) : BitVec bits :=
  operation.compute (state.registers operands.leftRegister) (operands.meaning.value state)

/-! ### Machines with three operands -/

section ThreeOperands

variable {config : Configuration} {source left dest : Node}

/-- Where an instruction takes both sides from registers, only immediates are left to be looked
at. -/
theorem Operands.realizes {ι : Type} {wrap : ι → MachineInstruction} {file : RegisterFile}
    (operands : Operands config file source left dest) (stmt : Statement) {operation : Arithmetic}
    {combined : String → String → String → ι} {fixed : Int → String → String → Checked (List ι)}
    (does : ∀ target left right, (wrap (combined target left right)).FitsImmediate ∧
      (wrap (combined target left right)).effects =
        [.assign target (.result operation (.register left) (.register right))])
    (realizes : ∀ value : Int, Realizes wrap file operands.target
      (fun state : MachineState bits =>
        operation.compute (state.registers operands.leftRegister) (BitVec.ofInt bits value))
      (fixed value operands.targetText operands.leftText)) :
    Realizes wrap file operands.target
      (fun state : MachineState bits => operands.result operation state) (do
        let leftText ← stmt.register config left
        let targetText ← stmt.register config dest
        if source.isLiteral then
          let value ← source.immediateValue config
          fixed value targetText leftText
        else
          let sourceText ← stmt.register config source
          return [combined targetText leftText sourceText]) := by
  obtain ⟨leftText, _, targetText, _, _, leftSpells, targetSpells, gives⟩ := operands
  simp only [leftSpells.operand, targetSpells.operand, Checked.ok_bind, Operands.result]
  cases gives with
  | register sourceSpells =>
    simp only [sourceSpells.notLiteral, sourceSpells.operand, Checked.ok_bind, Bool.false_eq_true,
      if_false]
    exact realizes_assign (does ..).1 (does ..).2 targetSpells.named fun state =>
      Expression.value?_result (Expression.value?_register leftSpells.named state)
        (Expression.value?_register sourceSpells.named state)
  | @immediate value isLiteral evaluated =>
    simp only [isLiteral, evaluated, Checked.ok_bind, if_true]
    exact realizes value

variable {property : Instruction → Prop}

namespace Arm64

theorem forall_materialize {value : Int}
    (immediate : ∀ target value, property (.moveImmediate target value))
    (zero : ∀ target chunk, property (.moveZero target chunk))
    (keep : ∀ target chunk shift, property (.moveKeep target chunk shift)) :
    ∀ line ∈ materialize value name, property line := by
  intro line mem
  simp only [materialize] at mem
  split at mem
  next =>
    cases mem_singleton.mp mem
    exact immediate ..
  next =>
    rcases mem_cons.mp mem with rfl | inPieces
    · exact zero ..
    · obtain ⟨shift, _, inPiece⟩ := mem_flatMap.mp inPieces
      simp only [keepChunk] at inPiece
      split at inPiece
      · cases inPiece
      · cases mem_singleton.mp inPiece
        exact keep ..

theorem realizes_arithmetic (stmt : Statement) (operation : Arithmetic)
    (operands : Operands config registerFile source left dest) :
    Realizes MachineInstruction.arm64 registerFile operands.target
      (fun state : MachineState 64 => operands.result operation state)
      (arithmetic config stmt operation source left dest) := by
  refine operands.realizes stmt (fun _ _ _ => ⟨trivial, rfl⟩) fun value => ?_
  have leftValue := fun state : MachineState 64 =>
    Expression.value?_register operands.leftSpells.named state
  have targetNamed := operands.targetSpells.named
  split
  next fits =>
    have range := (Bits.fitsUnsigned_iff _ _).mp fits
    exact realizes_assign ⟨range.1, by omega⟩ rfl targetNamed fun state =>
      Expression.value?_result (leftValue state) rfl
  next =>
    split
    next fits =>
      have range := (Bits.fitsUnsigned_iff _ _).mp fits
      refine realizes_assign ⟨range.1, by omega⟩ rfl targetNamed fun state => ?_
      rw [← operation.compute_inverse_neg]
      exact Expression.value?_result (leftValue state) rfl
    next =>
      exact realizes_built (by decide +kernel) scratch_named
        (forall_materialize (fun _ _ => trivial) (fun _ _ => trivial) fun _ _ _ => trivial)
        (run_materialize scratch_named value) trivial rfl targetNamed operands.leftSpells

end Arm64

namespace Armv7

theorem forall_materialize {value : Int} (low : ∀ target half, property (.moveLow target half))
    (high : ∀ target half, property (.moveHigh target half)) :
    ∀ line ∈ materialize value name, property line := by
  intro line mem
  simp only [materialize] at mem
  rcases mem_cons.mp mem with rfl | inHigh
  · exact low ..
  · split at inHigh
    · cases inHigh
    · cases mem_singleton.mp inHigh
      exact high ..

theorem realizes_arithmetic (stmt : Statement) (operation : Arithmetic)
    (operands : Operands config registerFile source left dest) :
    Realizes MachineInstruction.armv7 registerFile operands.target
      (fun state : MachineState 32 => operands.result operation state)
      (arithmetic config stmt operation source left dest) := by
  refine operands.realizes stmt (fun _ _ _ => ⟨trivial, rfl⟩) fun value => ?_
  have targetNamed := operands.targetSpells.named
  split
  next fits =>
    have range := (Bits.fitsUnsigned_iff _ _).mp fits
    exact realizes_assign ⟨range.1, by omega⟩ rfl targetNamed fun state =>
      Expression.value?_result (Expression.value?_register operands.leftSpells.named state) rfl
  next =>
    exact realizes_built (by decide +kernel) scratch_named
      (forall_materialize (fun _ _ => trivial) fun _ _ => trivial)
      (run_materialize scratch_named value) trivial rfl targetNamed operands.leftSpells

end Armv7

namespace Riscv

/-- A subtraction is the addition of the negated value. -/
theorem compute_eq_add (operation : Arithmetic) (left : BitVec bits) (value : Int) :
    operation.compute left (BitVec.ofInt bits value) = Arithmetic.add.compute left
        (BitVec.ofInt bits (if operation = .sub then -value else value)) := by
  cases operation
  · rfl
  · exact (Arithmetic.compute_inverse_neg .sub left value).symm

theorem realizes_arithmetic (stmt : Statement) (operation : Arithmetic)
    (operands : Operands config registerFile source left dest) :
    Realizes MachineInstruction.riscv registerFile operands.target
      (fun state : MachineState 64 => operands.result operation state)
      (arithmetic config stmt operation source left dest) := by
  refine operands.realizes stmt (fun _ _ _ => ⟨trivial, rfl⟩) fun value => ?_
  have targetNamed := operands.targetSpells.named
  simp only [compute_eq_add operation]
  generalize (if operation = .sub then -value else value) = amount
  split
  next fits =>
    have range := (Bits.fitsSigned_iff _ _).mp fits
    exact realizes_assign ⟨by omega, by omega⟩ rfl targetNamed fun state =>
      Expression.value?_result (Expression.value?_register operands.leftSpells.named state) rfl
  next =>
    show Realizes MachineInstruction.riscv _ _ _ (.ok ([.loadImmediate scratch amount] ++
      [.arithmetic .add operands.targetText operands.leftText scratch]))
    exact realizes_built (by decide +kernel) scratch_named (forall_mem_singleton.mpr trivial)
      (run_constant scratch_named amount) trivial rfl targetNamed operands.leftSpells

end Riscv

end ThreeOperands

/-! ### The machine with two operands -/

namespace X86

variable {config : Configuration} {operation : Arithmetic}
  {source left dest : Node} {leftText targetText : String}
  {leftRegister target : MachineRegister} {meaning : Source} {operand : Operand}

/-- What an operand of an instruction stands for. -/
def Operand.meaning? : Operand → Option Source
  | .immediate value => some (.immediate value)
  | .register name => (registerFile.integer? name).map .register

theorem Operand.value?_of_meaning? (means : operand.meaning? = some meaning)
    (state : MachineState bits) : operand.expression.integerValue? registerFile state =
      some (meaning.value state) := by
  cases operand with
  | immediate value =>
    cases means
    rfl
  | register name =>
    obtain ⟨register, named, rfl⟩ := Option.map_eq_some_iff.mp means
    exact Expression.value?_register named state

variable {register : MachineRegister}

theorem eq_of_taken? {first second : String}
    (firstNamed : registerFile.integer? first = some register)
    (secondNamed : registerFile.integer? second = some register) : first = second := by
  have distinct : (registerFile.registers.map (·.2)).Nodup := by decide +kernel
  have firstMem := Association.mem_of_get? (Option.filter_eq_some_iff.mp firstNamed).1
  have secondMem := Association.mem_of_get? (Option.filter_eq_some_iff.mp secondNamed).1
  exact congrArg Prod.fst (List.inj_on_of_nodup_map distinct firstMem secondMem rfl)

theorem immediateText_ne (named : registerFile.integer? name = some register) (value : Int) :
    immediateText value ≠ name := by
  have marks : ∀ entry ∈ registerFile.registers, entry.1.toList.head? = some '%' := by
    decide +kernel
  have mem := Association.mem_of_get? (Option.filter_eq_some_iff.mp named).1
  rintro rfl
  have mark := marks _ mem
  simp [immediateText] at mark

/-- An operand that is not written like a register does not depend on it. -/
theorem value_eq_of_text_ne {before after : MachineState bits}
    (targetNamed : registerFile.integer? targetText = some target)
    (means : operand.meaning? = some meaning) (elsewhere : operand.text ≠ targetText)
    (changes : before.ChangesOnly [target] after) : meaning.value after = meaning.value before := by
  cases operand with
  | immediate fixed =>
    cases means
    rfl
  | register name =>
    obtain ⟨register, named, rfl⟩ := Option.map_eq_some_iff.mp means
    refine changes.registers register fun mem => ?_
    obtain rfl := mem_singleton.mp mem
    exact elsewhere (eq_of_taken? named targetNamed)

theorem computes_result {result : MachineState bits → BitVec bits}
    (named : registerFile.integer? targetText = some target)
    (valued : ∀ state, value.integerValue? registerFile state = some (result state)) :
    Computes registerFile [] target result (resultEffects targetText value) := by
  intro state
  obtain ⟨after, runs, holds, changes⟩ :=
    computes_assign named valued state
  -- The flag is not a register.
  refine ⟨{ after with isEqual := after.registers target == 0 }, ?_, holds,
    ⟨changes.registers, changes.memory, changes.accesses⟩⟩
  have compared : Expression.integerValue? registerFile after (.register targetText) =
      some (after.registers target) := Expression.value?_register named after
  refine (run_append [.compare (.register targetText) (.constant 0)] runs).trans ?_
  rw [run_cons, Effect.step, compared]
  rfl

/-- Operands may be the destination; what is still needed of it is then not overwritten. -/
theorem computes_combine (operation : Arithmetic)
    (leftNamed : registerFile.integer? leftText = some leftRegister)
    (targetNamed : registerFile.integer? targetText = some target)
    (means : operand.meaning? = some meaning) : Computes registerFile [] target
      (fun state : MachineState bits =>
        operation.compute (state.registers leftRegister) (meaning.value state))
      ((combine operation operand leftText targetText).flatMap Instruction.effects) := by
  have leftValue := fun state : MachineState bits => Expression.value?_register leftNamed state
  have targetValue := fun state : MachineState bits => Expression.value?_register targetNamed state
  have operandValue := fun state : MachineState bits => Operand.value?_of_meaning? means state
  unfold combine
  split
  next same =>
    subst same
    obtain rfl := Option.some.inj (leftNamed.symm.trans targetNamed)
    exact computes_result targetNamed fun state =>
      Expression.value?_result (leftValue state) (operandValue state)
  next leftElsewhere =>
    have apart : leftRegister ∉ [target] := fun mem =>
      leftElsewhere (eq_of_taken? leftNamed (mem_singleton.mp mem ▸ targetNamed))
    split
    next same =>
      obtain rfl : meaning = .register target := by
        cases operand with
        | immediate value => exact absurd same (immediateText_ne targetNamed value)
        | register name =>
          rw [Operand.text] at same
          rw [Operand.meaning?, same, targetNamed] at means
          exact (Option.some.inj means).symm
      cases operation with
      | add =>
        refine computes_result targetNamed fun state => ?_
        rw [Arithmetic.compute, BitVec.add_comm]
        exact Expression.value?_result (targetValue state) (leftValue state)
      | sub =>
        refine (computes_result targetNamed fun state =>
          Expression.value?_result rfl (targetValue state)).append (computes_result targetNamed
            fun state => Expression.value?_result (targetValue state) (leftValue state)) ?_
        intro before after negated changes
        rw [negated, changes.registers leftRegister apart]
        simp [Arithmetic.compute, Source.value, BitVec.sub_eq_add_neg, BitVec.add_comm]
    next sourceElsewhere =>
      refine (computes_assign targetNamed leftValue).append (computes_result targetNamed
        fun state => Expression.value?_result (targetValue state) (operandValue state)) ?_
      intro before after moved changes
      rw [moved, value_eq_of_text_ne targetNamed means sourceElsewhere changes]

theorem realizes_combine (operation : Arithmetic)
    (leftNamed : registerFile.integer? leftText = some leftRegister)
    (targetNamed : registerFile.integer? targetText = some target)
    (means : operand.meaning? = some meaning)
    (fits : ∀ value, operand = .immediate value → -2 ^ 31 ≤ value ∧ value < 2 ^ 31) :
    Realizes MachineInstruction.x86 registerFile target (fun state : MachineState bits =>
        operation.compute (state.registers leftRegister) (meaning.value state))
      (.ok (combine operation operand leftText targetText)) := by
  refine ⟨_, rfl, ?_, fun state => ?_⟩
  · have operandFits :
        (MachineInstruction.x86 (.arithmetic operation operand targetText)).FitsImmediate := by
      cases operand with
      | immediate value => exact fits value rfl
      | register name => trivial
    unfold combine
    split
    · exact forall_mem_singleton.mpr operandFits
    · split
      · cases operation with
        | add => exact forall_mem_singleton.mpr trivial
        | sub => exact forall_mem_cons.mpr ⟨trivial, forall_mem_singleton.mpr trivial⟩
      · exact forall_mem_cons.mpr ⟨trivial, forall_mem_singleton.mpr operandFits⟩
  · obtain ⟨after, runs, holds, changes⟩ :=
      computes_combine operation leftNamed targetNamed means state
    exact ⟨after, runs, holds, changes.mono (List.cons_subset_cons _ (nil_subset _))⟩

theorem realizes_arithmetic (stmt : Statement) (operation : Arithmetic) {right : Node}
    (operands : Operands config registerFile right left dest) :
    Realizes MachineInstruction.x86 registerFile operands.target
      (fun state : MachineState 64 => operands.result operation state)
      (arithmetic config stmt operation right left dest) := by
  obtain ⟨leftText, _, targetText, _, _, leftSpells, targetSpells, gives⟩ := operands
  simp only [arithmetic, X86.source, leftSpells.operand, targetSpells.operand, Checked.ok_bind,
    Operands.result]
  cases gives with
  | register sourceSpells =>
    simp only [sourceSpells.notLiteral, sourceSpells.operand, Checked.ok_bind, Bool.false_eq_true,
      if_false]
    exact realizes_combine operation leftSpells.named targetSpells.named
      (Option.map_eq_some_iff.mpr ⟨_, sourceSpells.named, rfl⟩) nofun
  | @immediate value isLiteral evaluated =>
    simp only [isLiteral, evaluated, Checked.ok_bind, if_true]
    split
    next fits =>
      have range := (Bits.fitsSigned_iff _ _).mp fits
      refine realizes_combine operation leftSpells.named targetSpells.named rfl ?_
      rintro _ ⟨⟩
      exact ⟨by omega, by omega⟩
    next =>
      have mem : .integer 11 ∈ registerFile.scratch := by decide +kernel
      have means : (Operand.register scratch).meaning? = some (.register (.integer 11)) :=
        Option.map_eq_some_iff.mpr ⟨_, scratch_named, rfl⟩
      exact .after_built mem (forall_mem_singleton.mpr trivial) (run_constant scratch_named value)
        (realizes_combine operation leftSpells.named targetSpells.named means nofun) fun state =>
          operation.compute_built mem leftSpells.spare state _

end X86

/-! ### All machines -/

def Opcode.arithmetic? : Opcode → Option Arithmetic
  | .addp | .addq => some .add
  | .subp | .subq => some .sub
  | _ => none

def Line.FitsImmediate : Line → Prop
  | .code instruction _ => instruction.FitsImmediate
  | _ => True

theorem Line.exists_of_mem_ofInstructions {comment : Value} {instructions : List MachineInstruction}
    {line : Line} (mem : line ∈ ofInstructions comment instructions) :
    ∃ instruction ∈ instructions, ∃ shown, line = .code instruction shown := by
  cases instructions with
  | nil => cases mem
  | cons first rest =>
    rcases mem_cons.mp mem with rfl | mem
    · exact ⟨first, mem_cons_self, comment, rfl⟩
    · obtain ⟨instruction, inRest, rfl⟩ := mem_map.mp mem
      exact ⟨instruction, mem_cons_of_mem _ inRest, .null, rfl⟩

variable {stmt : Statement}

theorem Statement.combination_eq {source left dest : Node} {ι : Type}
    (form : stmt.operands = [source, left] ∧ dest = left ∨ stmt.operands = [source, left, dest])
    (build : Node → Node → Node → Checked (List ι)) :
    stmt.combination build = build source left dest := by
  unfold combination
  rcases form with ⟨operands, rfl⟩ | operands <;> rw [operands]

theorem Realizes.lower {config : Configuration} {opcode : Opcode} {ι : Type}
    {wrap : ι → MachineInstruction} {build : Node → Node → Node → Checked (List ι)}
    {file : RegisterFile} {target : MachineRegister} {result : MachineState bits → BitVec bits}
    {source left dest : Node} (realizes : Realizes wrap file target result (build source left dest))
    (form : stmt.operands = [source, left] ∧ dest = left ∨ stmt.operands = [source, left, dest])
    (lowers : Assembly.LowersTo config stmt opcode wrap (stmt.combination build)) : ∃ lines,
      (∀ table, (Assembly.lower config stmt.toNode).perform table =
        (.ok (.statements lines), table)) ∧ (∀ line ∈ lines, line.FitsImmediate) ∧
      Computes file file.scratch target result (lines.flatMap Line.effects) := by
  obtain ⟨lines, isOk, fits, computes⟩ := realizes
  rw [stmt.combination_eq form, isOk] at lowers
  refine ⟨_, lowers.perform_lower, ?_, ?_⟩
  · intro line mem
    obtain ⟨_, inMapped, _, rfl⟩ := Line.exists_of_mem_ofInstructions mem
    obtain ⟨line, inLines, rfl⟩ := mem_map.mp inMapped
    exact fits line inLines
  · rw [Line.flatMap_effects_ofInstructions, flatMap_map]
    exact computes

/-- An addition or a subtraction is lowered, for every machine that has it and for all integer
registers and immediates, to lines that put the result for the values at the start into the
destination. The machine has room for the immediates on the lines. -/
theorem Assembly.arithmetic_computed {config : Configuration}
    (own : config.SpellsOwnRegisters) (statement : Statement) {opcode : Opcode}
    {operation : Arithmetic} (named : statement.opcode = opcode.name)
    (means : opcode.arithmetic? = some operation)
    (present : config.architecture = .armv7 → opcode = .addp ∨ opcode = .subp)
    {source left destination : Node}
    (form : statement.operands = [source, left] ∧ destination = left ∨
      statement.operands = [source, left, destination])
    {leftRegister target : MachineRegister} {meaning : Source}
    (leftStands : left.machineRegister? config MachineRegister.isInteger =
      some leftRegister)
    (targetStands : destination.machineRegister? config MachineRegister.isInteger =
      some target)
    (sourceStands : source.source? config MachineRegister.isInteger = some meaning) :
    ∃ lines,
      (∀ table, (lower config statement.toNode).perform table =
        (.ok (.statements lines), table)) ∧
      (∀ line ∈ lines, line.FitsImmediate) ∧
      ∀ state : MachineState config.architecture.wordBits, ∃ after,
        execute config.architecture.registerFile lines state = some after ∧
          after.registers target =
            operation.compute (state.registers leftRegister) (meaning.value state) ∧
          state.ChangesOnly (target :: config.architecture.registerFile.scratch) after := by
  obtain ⟨leftText, leftSpells⟩ := left.exists_spells own leftStands
  obtain ⟨targetText, targetSpells⟩ := destination.exists_spells own targetStands
  have gives := source.gives_of_source? own sourceStands
  let operands : Operands config config.architecture.registerFile source left
      destination :=
    ⟨leftText, leftRegister, targetText, target, meaning, leftSpells, targetSpells, gives⟩
  obtain ⟨architecture, features, names, layout⟩ := config
  cases architecture with
  | arm64 | arm64e =>
    exact (Arm64.realizes_arithmetic statement operation operands).lower form
      (lowersTo named (by cases opcode <;> cases means <;> rfl))
  | x86 =>
    exact (X86.realizes_arithmetic statement operation operands).lower form
      (lowersTo named (by cases opcode <;> cases means <;> rfl))
  | riscv =>
    exact (Riscv.realizes_arithmetic statement operation operands).lower form
      (lowersTo named (by cases opcode <;> cases means <;> rfl))
  | armv7 =>
    exact (Armv7.realizes_arithmetic statement operation operands).lower form
      (lowersTo named (by rcases present rfl with rfl | rfl <;> cases means <;> rfl))
  | loop => cases leftSpells.named

def aliasedSubtraction : Statement :=
  ⟨.nowhere, "subp", [.register .nowhere .general "t0", .register .nowhere .general "t1",
    .register .nowhere .general "r0"], .null⟩

/-- On the machine with two operands the source is negated and the left operand is added to it. -/
theorem Assembly.arithmetic_computed_aliased :
    ∃ lines,
      (∀ table, (lower (.ofArchitecture .x86) aliasedSubtraction.toNode).perform table =
        (.ok (.statements lines), table)) ∧
      (∀ line ∈ lines, line.FitsImmediate) ∧
      ∀ state : MachineState 64, ∃ after, execute X86.registerFile lines state = some after ∧
        after.registers (.integer 0) =
          state.registers (.integer 6) - state.registers (.integer 0) ∧
        state.ChangesOnly [.integer 0, .integer 11] after := by
  have scratch : X86.registerFile.scratch = [.integer 11] := by decide +kernel
  rw [← scratch]
  refine arithmetic_computed (Configuration.ofArchitecture_spellsOwnRegisters .x86)
    aliasedSubtraction (rfl : _ = Opcode.subp.name) rfl nofun (.inr rfl) ?_ ?_
    (?_ : _ = some (Source.register (.integer 0)))
  all_goals decide +kernel

end MacroAssembler
